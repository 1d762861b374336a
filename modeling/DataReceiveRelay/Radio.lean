import DataReceiveRelay.Words
import DataReceiveRelay.Runs

/-!
# The CC1101 receive driver

The chip hands a packet over as one FIFO: the length byte, the payload, and
the two status bytes it appends (RSSI, then LQI with the CRC bit). Reads of the
FIFO consume it from the front. `cc1101ReceivePacket` compares the length byte
with the value `*length` carries from the previous packet, and every packet it
looks at overwrites that value, accepted or not.
-/

namespace DataReceiveRelay.Radio

open Words

def crcOk : U8 := 0x80#8
def bytesInRxfifo : U8 := 0x7F#8

/-- What one transmission leaves in the receive FIFO. -/
structure Packet where
  payload : List U8
  rssi : U8
  lqi : U8
  fits : payload.length < 256

/-- The first FIFO byte: the length of the payload. -/
def Packet.lengthByte (p : Packet) : U8 := BitVec.ofNat 8 p.payload.length

@[simp] theorem Packet.lengthByte_toNat (p : Packet) : p.lengthByte.toNat = p.payload.length := by
  have := p.fits
  simp only [Packet.lengthByte, BitVec.toNat_ofNat]
  omega

/-- The chip's CRC verdict, carried in the LQI byte. -/
def Packet.crcGood (p : Packet) : Bool := p.lqi &&& crcOk != 0#8

def Packet.fifo (p : Packet) : List U8 := p.lengthByte :: (p.payload ++ [p.rssi, p.lqi])

/-- What the radio shows during one pass of the receive loop: how many reads of
GDO0 find the pin still high, the RXBYTES register, and the FIFO contents. -/
structure Poll where
  gdo0 : Nat
  rxBytes : U8
  packet : Packet

/-- `SPI_ReadReg(CCxxx0_RXFIFO)`: take one byte. -/
def spiReadReg (fifo : List U8) : U8 × List U8 := (fifo.headD 0#8, fifo.tail)

/-- `SPI_ReadBrustReg(CCxxx0_RXFIFO, buffer, count)`: the loop from index `i` on. -/
def spiReadBrustReg (fifo : List U8) (buffer : Nat → U8) : Nat → Nat → List U8 × (Nat → U8)
  | _, 0 => (fifo, buffer)
  | i, count + 1 =>
    spiReadBrustReg fifo.tail (Function.update buffer i (fifo.headD 0#8)) (i + 1) count

/-- The wait `while(GDO0) { --i; if(i < 1) return 0; }`; false when it gives up. -/
def gdo0Wait (i : U8) : Nat → Bool
  | 0 => true
  | high + 1 => if i - 1#8 < 1#8 then false else gdo0Wait (i - 1#8) high

/-- The static registers `RSSI_RegisterValue` and `LQI_RegisterValue`. -/
structure StatusRegisters where
  rssi : U8
  lqi : U8
  deriving DecidableEq

/-- Outcome of `CC1101_ReceivePacket`: the return value, the caller's buffer and
length cell, the status registers, and the count of the burst read into the
buffer when one was made. -/
structure Received where
  ret : U8
  rxBuffer : Nat → U8
  length : U8
  status : StatusRegisters
  brust : Option U8

def cc1101ReceivePacket (poll : Poll) (rxBuffer : Nat → U8) (length : U8) (status : StatusRegisters) :
    Received :=
  if gdo0Wait (length * 4#8) poll.gdo0 then
    if poll.rxBytes &&& bytesInRxfifo ≠ 0#8 then
      let (packetLength, fifo) := spiReadReg poll.packet.fifo
      if packetLength ≤ length then
        let (fifo, rxBuffer) := spiReadBrustReg fifo rxBuffer 0 packetLength.toNat
        let (_, value) := spiReadBrustReg fifo (fun _ => 0#8) 0 2
        ⟨value 1 &&& crcOk, rxBuffer, packetLength, ⟨value 0, value 1⟩, some packetLength⟩
      else ⟨0#8, rxBuffer, packetLength, status, none⟩
    else ⟨0#8, rxBuffer, length, status, none⟩
  else ⟨0#8, rxBuffer, length, status, none⟩

/-- The pass gets as far as reading the length byte. -/
def Poll.delivers (poll : Poll) (length : U8) : Bool :=
  gdo0Wait (length * 4#8) poll.gdo0 && poll.rxBytes &&& bytesInRxfifo != 0#8

/-- The buffer with a prefix overwritten by `bytes`. -/
def overlay (bytes : List U8) (buffer : Nat → U8) : Nat → U8 :=
  fun j => if j < bytes.length then bytes.getD j 0#8 else buffer j

/-- A burst read moves the next bytes of the FIFO into consecutive cells. -/
theorem spiReadBrustReg_append (bytes rest : List U8) (buffer : Nat → U8) (i : Nat) :
    spiReadBrustReg (bytes ++ rest) buffer i bytes.length =
      (rest, fun j => if i ≤ j ∧ j < i + bytes.length then bytes.getD (j - i) 0#8 else buffer j) := by
  induction bytes generalizing buffer i with
  | nil =>
    simp only [List.nil_append, List.length_nil, spiReadBrustReg]
    congr 1
    funext j
    rw [if_neg (by omega)]
  | cons b bytes ih =>
    simp only [List.cons_append, List.length_cons, spiReadBrustReg, List.tail_cons, List.headD_cons]
    rw [ih]
    congr 1
    funext j
    rcases Nat.lt_trichotomy j i with h | h | h
    · rw [if_neg (by omega), if_neg (by omega), Function.update_of_ne (by omega)]
    · subst h
      rw [if_neg (by omega), if_pos (by omega)]
      simp
    · obtain ⟨k, rfl⟩ : ∃ k, j = i + 1 + k := ⟨j - (i + 1), by omega⟩
      by_cases hk : k < bytes.length
      · rw [if_pos (by omega), if_pos (by omega), show i + 1 + k - i = k + 1 by omega]
        simp
      · rw [if_neg (by omega), if_neg (by omega), Function.update_of_ne (by omega)]

theorem spiReadBrustReg_payload (p : Packet) (buffer : Nat → U8) :
    spiReadBrustReg (p.payload ++ [p.rssi, p.lqi]) buffer 0 p.payload.length =
      ([p.rssi, p.lqi], overlay p.payload buffer) := by
  rw [spiReadBrustReg_append]
  congr 1
  funext j
  simp [overlay]

/-- Everything `CC1101_ReceivePacket` does on a packet it takes. -/
theorem receive_accepted (poll : Poll) (rx : Nat → U8) (length : U8) (status : StatusRegisters)
    (hd : poll.delivers length) (hle : poll.packet.lengthByte ≤ length) :
    cc1101ReceivePacket poll rx length status =
      ⟨poll.packet.lqi &&& crcOk, overlay poll.packet.payload rx, poll.packet.lengthByte,
        ⟨poll.packet.rssi, poll.packet.lqi⟩, some poll.packet.lengthByte⟩ := by
  simp only [Poll.delivers, Bool.and_eq_true, bne_iff_ne] at hd
  simp only [cc1101ReceivePacket, hd.1, if_true, if_pos hd.2, spiReadReg, Packet.fifo, List.headD_cons,
    List.tail_cons, if_pos hle, Packet.lengthByte_toNat, spiReadBrustReg_payload]
  simp [spiReadBrustReg]

/-- A packet longer than the carried length is flushed, but its length is kept. -/
theorem receive_rejected (poll : Poll) (rx : Nat → U8) (length : U8) (status : StatusRegisters)
    (hd : poll.delivers length) (hle : ¬poll.packet.lengthByte ≤ length) :
    cc1101ReceivePacket poll rx length status = ⟨0#8, rx, poll.packet.lengthByte, status, none⟩ := by
  simp only [Poll.delivers, Bool.and_eq_true, bne_iff_ne] at hd
  simp only [cc1101ReceivePacket, hd.1, if_true, if_pos hd.2, spiReadReg, Packet.fifo, List.headD_cons]
  exact if_neg hle

/-- Without a packet the call changes nothing. -/
theorem receive_quiet (poll : Poll) (rx : Nat → U8) (length : U8) (status : StatusRegisters)
    (hd : ¬poll.delivers length) :
    cc1101ReceivePacket poll rx length status = ⟨0#8, rx, length, status, none⟩ := by
  simp only [Poll.delivers, Bool.and_eq_true, bne_iff_ne, not_and] at hd
  by_cases hw : gdo0Wait (length * 4#8) poll.gdo0
  · simp only [cc1101ReceivePacket, hw, if_true, if_neg (hd hw)]
  · simp only [cc1101ReceivePacket, if_neg hw]

end DataReceiveRelay.Radio
