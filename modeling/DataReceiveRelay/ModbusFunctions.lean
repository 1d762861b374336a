import DataReceiveRelay.Blocks
import DataReceiveRelay.ModbusCrc
import DataReceiveRelay.Registers

/-!
# Modbus function handlers

A handler gets the request as a pointer into the frame buffer and its length,
works in place and leaves the reply where the request was. It sees the whole
buffer: nothing keeps it from reading behind the end of a short request. The
register callbacks of the application get addresses that are one too high and
take the one off again.
-/

namespace DataReceiveRelay.ModbusFunctions

open Words Blocks ModbusCrc Registers

inductive ErrorCode where
  | noErr | noReg
  deriving DecidableEq, Repr

inductive Exception where
  | none | illegalFunction | illegalDataAddress | illegalDataValue
  deriving DecidableEq, Repr

def Exception.code : Exception → U8
  | .none => 0x00#8
  | .illegalFunction => 0x01#8
  | .illegalDataAddress => 0x02#8
  | .illegalDataValue => 0x03#8

def prveMBError2Exception : ErrorCode → Exception
  | .noErr => .none
  | .noReg => .illegalDataAddress

/-- What the four callbacks of the application give access to, and the slave ID, which `eMBSetSlaveID` keeps short of
its buffer. The coils and the discrete inputs stand in memory that goes on behind them. -/
structure Banks where
  usSRegHoldBuf : Table
  usSRegInBuf : Nat → U16
  ucSCoilBuf : Nat → U8
  ucSDiscInBuf : Nat → U8
  ucMBSlaveID : Bytes
  shortID : ucMBSlaveID.length < 32

/-- All registers zero and no slave ID. -/
def blankBanks : Banks := ⟨fun _ => 0#16, fun _ => 0#16, fun _ => 0#8, fun _ => 0#8, [], by decide⟩

def sRegInputNregs : Nat := 120
def sCoilNcoils : Nat := 64
def sDiscreteInputNdiscretes : Nat := 16

section Callbacks

def highByte (v : U16) : U8 := (v >>> 8).setWidth 8
def lowByte (v : U16) : U8 := (v &&& 0xFF#16).setWidth 8

/-- The reading loop of the register callbacks: `count` registers from `iRegIndex` on go to the buffer. -/
def readRegisters (regs : Nat → U16) : Nat → Nat → Nat → (Nat → U8) → Nat → U8
  | 0, _, _, buffer => buffer
  | count + 1, iRegIndex, p, buffer =>
    readRegisters regs count (iRegIndex + 1) (p + 2)
      (Function.update (Function.update buffer p (highByte (regs iRegIndex))) (p + 1) (lowByte (regs iRegIndex)))

/-- The writing loop. -/
def writeRegisters (buffer : Nat → U8) : Nat → Nat → Nat → Table → Table
  | 0, _, _, regs => regs
  | count + 1, iRegIndex, p, regs =>
    writeRegisters buffer count (iRegIndex + 1) (p + 2)
      (Function.update regs iRegIndex (joinBytes (buffer p) (buffer (p + 1))))

/-- The test that all callbacks make; the first address is zero. -/
def inRange (usAddress usNRegs : U16) (size : Nat) : Bool := decide ((usAddress - 1#16).toNat + usNRegs.toNat ≤ size)

def eMBRegInputCB (input : Nat → U16) (buffer : Nat → U8) (p : Nat) (usAddress usNRegs : U16) :
    ErrorCode × (Nat → U8) :=
  if inRange usAddress usNRegs sRegInputNregs then
    (.noErr, readRegisters input usNRegs.toNat (usAddress - 1#16).toNat p buffer)
  else (.noReg, buffer)

/-- `eMBRegHoldingCB` with `MB_REG_READ`. -/
def eMBRegHoldingCBRead (regs : Table) (buffer : Nat → U8) (p : Nat) (usAddress usNRegs : U16) :
    ErrorCode × (Nat → U8) :=
  if inRange usAddress usNRegs sRegHoldingNregs then
    (.noErr, readRegisters regs usNRegs.toNat (usAddress - 1#16).toNat p buffer)
  else (.noReg, buffer)

/-- `eMBRegHoldingCB` with `MB_REG_WRITE`. -/
def eMBRegHoldingCBWrite (buffer : Nat → U8) (p : Nat) (usAddress usNRegs : U16) (regs : Table) : ErrorCode × Table :=
  if inRange usAddress usNRegs sRegHoldingNregs then
    (.noErr, writeRegisters buffer usNRegs.toNat (usAddress - 1#16).toNat p regs)
  else (.noReg, regs)

/-- The 16 bits from byte `base + usBitOffset / 8` on. -/
def wordBuf (ucByteBuf : Nat → U8) (base usBitOffset : Nat) : U16 :=
  (ucByteBuf (base + usBitOffset / 8)).setWidth 16 ||| ((ucByteBuf (base + usBitOffset / 8 + 1)).setWidth 16 <<< 8)

def bitMask (ucNBits : Nat) : U16 := (1#16 <<< ucNBits) - 1#16

/-- `xMBUtilSetBits` at `&ucByteBuf[base]`. The value is not masked. -/
def xMBUtilSetBits (ucByteBuf : Nat → U8) (base usBitOffset ucNBits : Nat) (ucValue : U8) : Nat → U8 :=
  let usValue := ucValue.setWidth 16 <<< (usBitOffset % 8)
  let usMask := bitMask ucNBits <<< (usBitOffset % 8)
  let usWordBuf := (wordBuf ucByteBuf base usBitOffset &&& ~~~usMask) ||| usValue
  Function.update (Function.update ucByteBuf (base + usBitOffset / 8) (lowByte usWordBuf))
    (base + usBitOffset / 8 + 1) (highByte usWordBuf)

def xMBUtilGetBits (ucByteBuf : Nat → U8) (base usBitOffset ucNBits : Nat) : U8 :=
  ((wordBuf ucByteBuf base usBitOffset >>> (usBitOffset % 8)) &&& bitMask ucNBits).setWidth 8

/-- The reading loop of the bit callbacks, `iNReg` bytes. -/
def readBits (bits : Nat → U8) (iRegBitIndex : Nat) : Nat → Nat → Nat → (Nat → U8) → Nat → U8
  | 0, _, _, buffer => buffer
  | iNReg + 1, iRegIndex, p, buffer =>
    readBits bits iRegBitIndex iNReg (iRegIndex + 1) (p + 1)
      (Function.update buffer p (xMBUtilGetBits bits iRegIndex iRegBitIndex 8))

/-- The reading half of the bit callbacks. One byte more than the full ones is read, and its high bits are shifted out. -/
def readBitsCB (bits : Nat → U8) (size : Nat) (buffer : Nat → U8) (p : Nat) (usAddress usNBits : U16) :
    ErrorCode × (Nat → U8) :=
  if inRange usAddress usNBits size then
    let iNReg := usNBits.toNat / 8 + 1
    let filled := readBits bits ((usAddress - 1#16).toNat % 8) iNReg ((usAddress - 1#16).toNat / 8) p buffer
    let last := p + iNReg - 1
    let shift := 8 - usNBits.toNat % 8
    (.noErr, Function.update filled last ((filled last <<< shift) >>> shift))
  else (.noReg, buffer)

/-- `eMBRegCoilsCB` with `MB_REG_READ`. -/
def eMBRegCoilsCBRead (coils : Nat → U8) (buffer : Nat → U8) (p : Nat) (usAddress usNCoils : U16) :
    ErrorCode × (Nat → U8) :=
  readBitsCB coils sCoilNcoils buffer p usAddress usNCoils

def eMBRegDiscreteCB (discretes : Nat → U8) (buffer : Nat → U8) (p : Nat) (usAddress usNDiscrete : U16) :
    ErrorCode × (Nat → U8) :=
  readBitsCB discretes sDiscreteInputNdiscretes buffer p usAddress usNDiscrete

/-- The writing loop over full bytes. -/
def writeBits (buffer : Nat → U8) (iRegBitIndex : Nat) : Nat → Nat → Nat → (Nat → U8) → Nat → U8
  | 0, _, _, coils => coils
  | count + 1, iRegIndex, p, coils =>
    writeBits buffer iRegBitIndex count (iRegIndex + 1) (p + 1)
      (xMBUtilSetBits coils iRegIndex iRegBitIndex 8 (buffer p))

/-- `eMBRegCoilsCB` with `MB_REG_WRITE`. -/
def eMBRegCoilsCBWrite (buffer : Nat → U8) (p : Nat) (usAddress usNCoils : U16) (coils : Nat → U8) :
    ErrorCode × (Nat → U8) :=
  if inRange usAddress usNCoils sCoilNcoils then
    let full := usNCoils.toNat / 8
    let iRegIndex := (usAddress - 1#16).toNat / 8
    let iRegBitIndex := (usAddress - 1#16).toNat % 8
    let written := writeBits buffer iRegBitIndex full iRegIndex p coils
    (.noErr,
      if usNCoils.toNat % 8 ≠ 0 then
        xMBUtilSetBits written (iRegIndex + full) iRegBitIndex (usNCoils.toNat % 8) (buffer (p + full))
      else written)
  else (.noReg, coils)

end Callbacks

section Handlers

/-- What a handler leaves: the exception, the buffer, the length of the reply and the banks. -/
structure Outcome where
  eException : Exception
  frame : Nat → U8
  usLen : Nat
  banks : Banks

/-- Two bytes of the request as a number, high byte first. -/
def wordAt (frame : Nat → U8) (offset : Nat) : U16 := joinBytes (frame offset) (frame (offset + 1))

/-- The four reading functions: function code, largest count, bytes of data, callback. -/
def readFunction (code : U8) (most : Nat) (size : Nat → Nat)
    (callback : (Nat → U8) → Nat → U16 → U16 → ErrorCode × (Nat → U8)) (frame : Nat → U8) (usLen : Nat)
    (banks : Banks) : Outcome :=
  if usLen = 5 then
    let usRegAddress := wordAt frame 1 + 1#16
    let usRegCount := wordAt frame 3
    if 1 ≤ usRegCount.toNat ∧ usRegCount.toNat ≤ most then
      let headed := Function.update (Function.update frame 0 code) 1 (BitVec.ofNat 8 (size usRegCount.toNat))
      match callback headed 2 usRegAddress usRegCount with
      | (.noErr, filled) => ⟨.none, filled, 2 + size usRegCount.toNat, banks⟩
      | (eRegStatus, filled) => ⟨prveMBError2Exception eRegStatus, filled, 2, banks⟩
    else ⟨.illegalDataValue, frame, usLen, banks⟩
  else ⟨.illegalDataValue, frame, usLen, banks⟩

/-- The bytes that hold `count` bits. -/
def bitBytes (count : Nat) : Nat := if count % 8 ≠ 0 then count / 8 + 1 else count / 8

def eMBFuncReadCoils (frame : Nat → U8) (usLen : Nat) (banks : Banks) : Outcome :=
  readFunction 1#8 0x07CF bitBytes (eMBRegCoilsCBRead banks.ucSCoilBuf) frame usLen banks

def eMBFuncReadDiscreteInputs (frame : Nat → U8) (usLen : Nat) (banks : Banks) : Outcome :=
  readFunction 2#8 0x07CF bitBytes (eMBRegDiscreteCB banks.ucSDiscInBuf) frame usLen banks

def eMBFuncReadHoldingRegister (frame : Nat → U8) (usLen : Nat) (banks : Banks) : Outcome :=
  readFunction 3#8 0x007D (2 * ·) (eMBRegHoldingCBRead banks.usSRegHoldBuf) frame usLen banks

/-- One register less than the holding registers: the limit itself is refused. -/
def eMBFuncReadInputRegister (frame : Nat → U8) (usLen : Nat) (banks : Banks) : Outcome :=
  readFunction 4#8 0x007C (2 * ·) (eMBRegInputCB banks.usSRegInBuf) frame usLen banks

def eMBFuncWriteHoldingRegister (frame : Nat → U8) (usLen : Nat) (banks : Banks) : Outcome :=
  if usLen = 5 then
    let written := eMBRegHoldingCBWrite frame 3 (wordAt frame 1 + 1#16) 1#16 banks.usSRegHoldBuf
    ⟨prveMBError2Exception written.1, frame, usLen, { banks with usSRegHoldBuf := written.2 }⟩
  else ⟨.illegalDataValue, frame, usLen, banks⟩

/-- The byte count is compared with the register count, not with the length of the request. -/
def eMBFuncWriteMultipleHoldingRegister (frame : Nat → U8) (usLen : Nat) (banks : Banks) : Outcome :=
  if 6 ≤ usLen then
    let usRegCount := wordAt frame 3
    if 1 ≤ usRegCount.toNat ∧ usRegCount.toNat ≤ 0x0078 ∧ frame 5 = BitVec.ofNat 8 (2 * usRegCount.toNat) then
      match eMBRegHoldingCBWrite frame 6 (wordAt frame 1 + 1#16) usRegCount banks.usSRegHoldBuf with
      | (.noErr, regs) => ⟨.none, frame, 5, { banks with usSRegHoldBuf := regs }⟩
      | (eRegStatus, regs) => ⟨prveMBError2Exception eRegStatus, frame, usLen, { banks with usSRegHoldBuf := regs }⟩
    else ⟨.illegalDataValue, frame, usLen, banks⟩
  else ⟨.illegalDataValue, frame, usLen, banks⟩

/-- A request that is too short is no exception here: it goes back as it came. -/
def eMBFuncReadWriteMultipleHoldingRegister (frame : Nat → U8) (usLen : Nat) (banks : Banks) : Outcome :=
  if 10 ≤ usLen then
    let usRegReadCount := wordAt frame 3
    let usRegWriteCount := wordAt frame 7
    if (1 ≤ usRegReadCount.toNat ∧ usRegReadCount.toNat ≤ 0x7D) ∧
        (1 ≤ usRegWriteCount.toNat ∧ usRegWriteCount.toNat ≤ 0x79) ∧ 2 * usRegWriteCount.toNat = (frame 9).toNat then
      match eMBRegHoldingCBWrite frame 10 (wordAt frame 5 + 1#16) usRegWriteCount banks.usSRegHoldBuf with
      | (.noErr, regs) =>
        let headed := Function.update (Function.update frame 0 23#8) 1 (BitVec.ofNat 8 (2 * usRegReadCount.toNat))
        match eMBRegHoldingCBRead regs headed 2 (wordAt frame 1 + 1#16) usRegReadCount with
        | (.noErr, filled) => ⟨.none, filled, 2 + 2 * usRegReadCount.toNat, { banks with usSRegHoldBuf := regs }⟩
        | (eRegStatus, filled) =>
          ⟨prveMBError2Exception eRegStatus, filled, 2, { banks with usSRegHoldBuf := regs }⟩
      | (eRegStatus, regs) => ⟨prveMBError2Exception eRegStatus, frame, usLen, { banks with usSRegHoldBuf := regs }⟩
    else ⟨.illegalDataValue, frame, usLen, banks⟩
  else ⟨.none, frame, usLen, banks⟩

/-- Only `FF 00` and `00 00` are values of a coil. -/
def eMBFuncWriteCoil (frame : Nat → U8) (usLen : Nat) (banks : Banks) : Outcome :=
  if usLen = 5 then
    if frame 4 = 0x00#8 ∧ (frame 3 = 0xFF#8 ∨ frame 3 = 0x00#8) then
      let ucBuf : Nat → U8 := fun k => if k = 0 then (if frame 3 = 0xFF#8 then 1#8 else 0#8) else 0#8
      let written := eMBRegCoilsCBWrite ucBuf 0 (wordAt frame 1 + 1#16) 1#16 banks.ucSCoilBuf
      ⟨prveMBError2Exception written.1, frame, usLen, { banks with ucSCoilBuf := written.2 }⟩
    else ⟨.illegalDataValue, frame, usLen, banks⟩
  else ⟨.illegalDataValue, frame, usLen, banks⟩

def eMBFuncWriteMultipleCoils (frame : Nat → U8) (usLen : Nat) (banks : Banks) : Outcome :=
  if 5 < usLen then
    let usCoilCnt := wordAt frame 3
    if 1 ≤ usCoilCnt.toNat ∧ usCoilCnt.toNat ≤ 0x07B0 ∧ BitVec.ofNat 8 (bitBytes usCoilCnt.toNat) = frame 5 then
      match eMBRegCoilsCBWrite frame 6 (wordAt frame 1 + 1#16) usCoilCnt banks.ucSCoilBuf with
      | (.noErr, coils) => ⟨.none, frame, 5, { banks with ucSCoilBuf := coils }⟩
      | (eRegStatus, coils) => ⟨prveMBError2Exception eRegStatus, frame, usLen, { banks with ucSCoilBuf := coils }⟩
    else ⟨.illegalDataValue, frame, usLen, banks⟩
  else ⟨.illegalDataValue, frame, usLen, banks⟩

def eMBFuncReportSlaveID (frame : Nat → U8) (_usLen : Nat) (banks : Banks) : Outcome :=
  ⟨.none, place frame 1 banks.ucMBSlaveID, 1 + banks.ucMBSlaveID.length, banks⟩

/-- The installed handlers; the slots behind them are empty. -/
def xFuncHandlers : List (U8 × ((Nat → U8) → Nat → Banks → Outcome)) :=
  [(17#8, eMBFuncReportSlaveID), (4#8, eMBFuncReadInputRegister), (3#8, eMBFuncReadHoldingRegister),
    (16#8, eMBFuncWriteMultipleHoldingRegister), (6#8, eMBFuncWriteHoldingRegister),
    (23#8, eMBFuncReadWriteMultipleHoldingRegister), (1#8, eMBFuncReadCoils), (5#8, eMBFuncWriteCoil),
    (15#8, eMBFuncWriteMultipleCoils), (2#8, eMBFuncReadDiscreteInputs)]

/-- The dispatch of `eMBPoll`. -/
def dispatch (frame : Nat → U8) (usLen : Nat) (banks : Banks) : Outcome :=
  match xFuncHandlers.find? (fun handler => handler.1 == frame 0) with
  | none => ⟨.illegalFunction, frame, usLen, banks⟩
  | some handler => handler.2 frame usLen banks

/-- The reply as it stands in the buffer, with the error frame in place of a refused request. -/
def reply (frame : Nat → U8) (usLen : Nat) (banks : Banks) : (Nat → U8) × Nat × Banks :=
  let outcome := dispatch frame usLen banks
  if outcome.eException ≠ .none then
    (Function.update (Function.update outcome.frame 0 (frame 0 ||| 0x80#8)) 1 outcome.eException.code, 2, outcome.banks)
  else (outcome.frame, outcome.usLen, outcome.banks)

end Handlers

section Registers

/-- A register on the line, high byte first. -/
def wordBytes (v : U16) : Bytes := [highByte v, lowByte v]

/-- The registers that `count` pairs of bytes stand for. -/
def wordsAt (buffer : Nat → U8) (p : Nat) : Nat → List U16
  | 0 => []
  | count + 1 => joinBytes (buffer p) (buffer (p + 1)) :: wordsAt buffer (p + 2) count

@[simp] theorem wordsAt_length (buffer : Nat → U8) (p count : Nat) : (wordsAt buffer p count).length = count := by
  induction count generalizing p with
  | zero => rfl
  | succ count ih => rw [wordsAt, List.length_cons, ih]

@[simp] theorem flatMap_wordBytes_length (values : List U16) : (values.flatMap wordBytes).length = 2 * values.length := by
  induction values with
  | nil => rfl
  | cons v values ih =>
    rw [List.flatMap_cons, List.length_append, ih, List.length_cons]
    show 2 + 2 * values.length = 2 * (values.length + 1)
    omega

@[simp] theorem lowByte_joinBytes (hi lo : U8) : lowByte (joinBytes hi lo) = lo := by
  have hmask : ∀ i : Fin 8, (0xFF#16).getLsbD i.val = true := by decide
  rw [lowByte, joinBytes_eq_append]
  apply BitVec.eq_of_getLsbD_eq
  intro i hlt
  rw [BitVec.getLsbD_setWidth, BitVec.getLsbD_and, hmask ⟨i, hlt⟩, BitVec.getLsbD_append]
  simp [hlt]

@[simp] theorem highByte_joinBytes (hi lo : U8) : highByte (joinBytes hi lo) = hi := by
  rw [highByte, joinBytes_high]
  apply BitVec.eq_of_getLsbD_eq
  intro i hlt
  rw [BitVec.getLsbD_setWidth, BitVec.getLsbD_setWidth]
  have hwide : i < 16 := by omega
  simp [hlt, hwide]

@[simp] theorem joinBytes_split (v : U16) : joinBytes (highByte v) (lowByte v) = v := by
  have hmask : ∀ i : Fin 8, (0xFF#16).getLsbD i.val = true := by decide
  rw [joinBytes_eq_append]
  apply BitVec.eq_of_getLsbD_eq
  intro i hlt
  rw [BitVec.getLsbD_append]
  by_cases h : i < 8
  · rw [if_pos h, lowByte, BitVec.getLsbD_setWidth, BitVec.getLsbD_and, hmask ⟨i, h⟩]
    simp [h]
  · have hrest : i - 8 < 8 := by omega
    rw [if_neg h, highByte, BitVec.getLsbD_setWidth, BitVec.getLsbD_ushiftRight, Nat.add_sub_of_le (by omega)]
    simp [hrest]

/-- The reading loop lays the registers into the buffer, one after the other. -/
theorem readRegisters_eq (regs : Nat → U16) (count iRegIndex p : Nat) (buffer : Nat → U8) :
    readRegisters regs count iRegIndex p buffer = place buffer p ((block regs iRegIndex count).flatMap wordBytes) := by
  induction count generalizing iRegIndex p buffer with
  | zero => rw [readRegisters, block_zero, List.flatMap_nil, place_nil]
  | succ count ih =>
    rw [readRegisters, ih, block_succ, List.flatMap_cons, wordBytes, List.cons_append, List.cons_append,
      List.nil_append, place_cons, place_cons]

/-- The writing loop takes them over. -/
theorem writeRegisters_eq (buffer : Nat → U8) (count iRegIndex p : Nat) (regs : Table) :
    writeRegisters buffer count iRegIndex p regs = place regs iRegIndex (wordsAt buffer p count) := by
  induction count generalizing iRegIndex p regs with
  | zero => rw [writeRegisters, wordsAt, place_nil]
  | succ count ih => rw [writeRegisters, ih, wordsAt, place_cons]

/-- Registers that lie in the buffer are the ones read from it. -/
theorem wordsAt_of_block (buffer : Nat → U8) (p : Nat) (values : List U16)
    (h : block buffer p (2 * values.length) = values.flatMap wordBytes) : wordsAt buffer p values.length = values := by
  induction values generalizing p with
  | nil => rfl
  | cons v values ih =>
    rw [List.length_cons, Nat.mul_succ, Nat.add_comm, block_add, List.flatMap_cons] at h
    obtain ⟨hfirst, hrest⟩ := List.append_inj h (by rw [block_length]; rfl)
    rw [block_succ, block_succ, block_zero, wordBytes] at hfirst
    injection hfirst with hhigh hlow
    injection hlow with hlow
    rw [List.length_cons, wordsAt, ih (p + 2) hrest, hhigh, hlow, joinBytes_split]

theorem inRange_succ (address count : U16) (size : Nat) :
    inRange (address + 1#16) count size = decide (address.toNat + count.toNat ≤ size) := by
  rw [inRange, BitVec.add_sub_cancel]

/-- The callbacks undo the increment of the handlers, also where it wraps. -/
theorem eMBRegHoldingCBRead_eq (regs : Table) (buffer : Nat → U8) (p : Nat) (address count : U16) :
    eMBRegHoldingCBRead regs buffer p (address + 1#16) count =
      if address.toNat + count.toNat ≤ sRegHoldingNregs then
        (.noErr, place buffer p ((block regs address.toNat count.toNat).flatMap wordBytes))
      else (.noReg, buffer) := by
  rw [eMBRegHoldingCBRead, inRange_succ, BitVec.add_sub_cancel, readRegisters_eq]
  simp only [decide_eq_true_eq]

theorem eMBRegInputCB_eq (input : Nat → U16) (buffer : Nat → U8) (p : Nat) (address count : U16) :
    eMBRegInputCB input buffer p (address + 1#16) count =
      if address.toNat + count.toNat ≤ sRegInputNregs then
        (.noErr, place buffer p ((block input address.toNat count.toNat).flatMap wordBytes))
      else (.noReg, buffer) := by
  rw [eMBRegInputCB, inRange_succ, BitVec.add_sub_cancel, readRegisters_eq]
  simp only [decide_eq_true_eq]

theorem eMBRegHoldingCBWrite_eq (buffer : Nat → U8) (p : Nat) (address count : U16) (regs : Table) :
    eMBRegHoldingCBWrite buffer p (address + 1#16) count regs =
      if address.toNat + count.toNat ≤ sRegHoldingNregs then
        (.noErr, place regs address.toNat (wordsAt buffer p count.toNat))
      else (.noReg, regs) := by
  rw [eMBRegHoldingCBWrite, inRange_succ, BitVec.add_sub_cancel, writeRegisters_eq]
  simp only [decide_eq_true_eq]

end Registers

section Lengths

/-- What holds for a request that no handler takes and for the result of every handler holds for the dispatch. -/
theorem dispatch_cases (P : Outcome → Prop) (frame : Nat → U8) (usLen : Nat) (banks : Banks)
    (hnone : P ⟨.illegalFunction, frame, usLen, banks⟩)
    (hhandlers : ∀ handler ∈ xFuncHandlers, P (handler.2 frame usLen banks)) : P (dispatch frame usLen banks) := by
  rw [dispatch]
  cases hfind : xFuncHandlers.find? fun handler => handler.1 == frame 0 with
  | none => exact hnone
  | some handler => exact hhandlers handler (List.mem_of_find?_eq_some hfind)

theorem bitBytes_le (count most : Nat) (h : count ≤ most) : bitBytes count ≤ most / 8 + 1 := by
  rw [bitBytes]
  split <;> omega

theorem readFunction_usLen (code : U8) (most : Nat) (size : Nat → Nat)
    (callback : (Nat → U8) → Nat → U16 → U16 → ErrorCode × (Nat → U8)) (frame : Nat → U8) (usLen : Nat) (banks : Banks)
    (hsize : ∀ count ≤ most, size count ≤ 250) (hlen : usLen ≤ 253) :
    (readFunction code most size callback frame usLen banks).usLen ≤ 253 := by
  rw [readFunction]
  split
  · dsimp only
    split
    · rename_i hcount
      have hdata := hsize _ hcount.2
      split
      · show 2 + size _ ≤ 253
        omega
      · show 2 ≤ 253
        omega
    · exact hlen
  · exact hlen

/-- A reply is never longer than a request may be. -/
theorem dispatch_usLen (frame : Nat → U8) (usLen : Nat) (banks : Banks) (hlen : usLen ≤ 253) :
    (dispatch frame usLen banks).usLen ≤ 253 := by
  have hbits : ∀ count ≤ 0x07CF, bitBytes count ≤ 250 := fun count h => bitBytes_le count 0x07CF h
  have hid := banks.shortID
  refine dispatch_cases (fun o => o.usLen ≤ 253) frame usLen banks hlen fun handler hmem => ?_
  simp only [xFuncHandlers, List.mem_cons, List.not_mem_nil, or_false] at hmem
  rcases hmem with h | h | h | h | h | h | h | h | h | h <;> subst h
  · show 1 + banks.ucMBSlaveID.length ≤ 253
    omega
  · exact readFunction_usLen 4#8 _ _ _ frame usLen banks (fun count h => by omega) hlen
  · exact readFunction_usLen 3#8 _ _ _ frame usLen banks (fun count h => by omega) hlen
  · simp only [eMBFuncWriteMultipleHoldingRegister]
    split_ifs <;> try exact hlen
    split
    · show 5 ≤ 253
      omega
    · exact hlen
  · simp only [eMBFuncWriteHoldingRegister]
    split_ifs <;> exact hlen
  · simp only [eMBFuncReadWriteMultipleHoldingRegister]
    split_ifs with _ hcount <;> try exact hlen
    split
    · split
      · show 2 + 2 * _ ≤ 253
        omega
      · show 2 ≤ 253
        omega
    · exact hlen
  · exact readFunction_usLen 1#8 _ _ _ frame usLen banks hbits hlen
  · simp only [eMBFuncWriteCoil]
    split_ifs <;> exact hlen
  · simp only [eMBFuncWriteMultipleCoils]
    split_ifs <;> try exact hlen
    split
    · show 5 ≤ 253
      omega
    · exact hlen
  · exact readFunction_usLen 2#8 _ _ _ frame usLen banks hbits hlen

/-- The reading functions stay below the end of a PDU if their callback does. -/
theorem readFunction_above (code : U8) (most : Nat) (size : Nat → Nat)
    (callback : (Nat → U8) → Nat → U16 → U16 → ErrorCode × (Nat → U8)) (frame : Nat → U8) (usLen : Nat) (banks : Banks)
    (k : Nat) (hk : 253 ≤ k)
    (hcallback : ∀ buffer address count, count.toNat ≤ most → (callback buffer 2 address count).2 k = buffer k) :
    (readFunction code most size callback frame usLen banks).frame k = frame k := by
  rw [readFunction]
  split
  · dsimp only
    split
    · rename_i hcount
      have hfill := hcallback (Function.update (Function.update frame 0 code) 1
        (BitVec.ofNat 8 (size (wordAt frame 3).toNat))) (wordAt frame 1 + 1#16) (wordAt frame 3) hcount.2
      rw [Function.update_of_ne (by omega), Function.update_of_ne (by omega)] at hfill
      split
      · rename_i hread
        rw [hread] at hfill
        exact hfill
      · rename_i hread
        rw [hread] at hfill
        exact hfill
    · rfl
  · rfl

theorem registers_above (regs : Nat → U16) (buffer : Nat → U8) (address count : Nat) (k : Nat) (hk : 253 ≤ k)
    (hcount : count ≤ 125) : readRegisters regs count address 2 buffer k = buffer k := by
  rw [readRegisters_eq]
  apply place_outside
  rw [flatMap_wordBytes_length, block_length]
  omega

theorem eMBRegHoldingCBRead_above (regs : Table) (buffer : Nat → U8) (address count : U16) (k : Nat) (hk : 253 ≤ k)
    (hcount : count.toNat ≤ 125) : (eMBRegHoldingCBRead regs buffer 2 address count).2 k = buffer k := by
  rw [eMBRegHoldingCBRead]
  split
  · exact registers_above _ _ _ _ k hk hcount
  · rfl

theorem readBits_outside (bits : Nat → U8) (iRegBitIndex iNReg iRegIndex p : Nat) (buffer : Nat → U8) (k : Nat)
    (hk : p + iNReg ≤ k) : readBits bits iRegBitIndex iNReg iRegIndex p buffer k = buffer k := by
  induction iNReg generalizing iRegIndex p buffer with
  | zero => rfl
  | succ iNReg ih => rw [readBits, ih _ _ _ (by omega), Function.update_of_ne (by omega)]

theorem readBitsCB_above (bits : Nat → U8) (size : Nat) (hsize : size ≤ 64) (buffer : Nat → U8)
    (address count : U16) (k : Nat) (hk : 253 ≤ k) : (readBitsCB bits size buffer 2 address count).2 k = buffer k := by
  rw [readBitsCB]
  by_cases hin : inRange address count size = true
  · rw [if_pos hin]
    rw [inRange, decide_eq_true_eq] at hin
    dsimp only
    rw [Function.update_of_ne (by omega), readBits_outside _ _ _ _ _ _ _ (by omega)]
  · rw [if_neg hin]

/-- No handler writes behind the largest PDU. -/
theorem dispatch_above (frame : Nat → U8) (usLen : Nat) (banks : Banks) (k : Nat) (hk : 253 ≤ k) :
    (dispatch frame usLen banks).frame k = frame k := by
  have hid := banks.shortID
  refine dispatch_cases (fun o => o.frame k = frame k) frame usLen banks rfl fun handler hmem => ?_
  simp only [xFuncHandlers, List.mem_cons, List.not_mem_nil, or_false] at hmem
  rcases hmem with h | h | h | h | h | h | h | h | h | h <;> subst h
  · exact place_outside frame 1 _ k (by omega)
  · refine readFunction_above 4#8 _ _ _ frame usLen banks k hk fun buffer address count hcount => ?_
    rw [eMBRegInputCB]
    split
    · exact registers_above _ _ _ _ k hk (by omega)
    · rfl
  · exact readFunction_above 3#8 _ _ _ frame usLen banks k hk fun buffer address count hcount =>
      eMBRegHoldingCBRead_above _ buffer address count k hk hcount
  · simp only [eMBFuncWriteMultipleHoldingRegister]
    split_ifs <;> try rfl
    split <;> rfl
  · simp only [eMBFuncWriteHoldingRegister]
    split_ifs <;> rfl
  · simp only [eMBFuncReadWriteMultipleHoldingRegister]
    split_ifs with _ hcount <;> try rfl
    split
    · rename_i regs _
      have hfill : (eMBRegHoldingCBRead regs (Function.update (Function.update frame 0 23#8) 1
          (BitVec.ofNat 8 (2 * (wordAt frame 3).toNat))) 2 (wordAt frame 1 + 1#16) (wordAt frame 3)).2 k = frame k := by
        rw [eMBRegHoldingCBRead_above regs _ _ _ k hk hcount.1.2, Function.update_of_ne (by omega),
          Function.update_of_ne (by omega)]
      split
      · rename_i hread
        rw [hread] at hfill
        exact hfill
      · rename_i hread
        rw [hread] at hfill
        exact hfill
    · rfl
  · exact readFunction_above 1#8 _ _ _ frame usLen banks k hk fun buffer address count _ =>
      readBitsCB_above _ sCoilNcoils (by decide) buffer address count k hk
  · simp only [eMBFuncWriteCoil]
    split_ifs <;> rfl
  · simp only [eMBFuncWriteMultipleCoils]
    split_ifs <;> try rfl
    split <;> rfl
  · exact readFunction_above 2#8 _ _ _ frame usLen banks k hk fun buffer address count _ =>
      readBitsCB_above _ sDiscreteInputNdiscretes (by decide) buffer address count k hk

theorem reply_usLen (frame : Nat → U8) (usLen : Nat) (banks : Banks) (hlen : usLen ≤ 253) :
    (reply frame usLen banks).2.1 ≤ 253 := by
  rw [reply]
  split
  · show 2 ≤ 253
    omega
  · exact dispatch_usLen frame usLen banks hlen

theorem reply_above (frame : Nat → U8) (usLen : Nat) (banks : Banks) (k : Nat) (hk : 253 ≤ k) :
    (reply frame usLen banks).1 k = frame k := by
  rw [reply]
  split
  · dsimp only
    rw [Function.update_of_ne (by omega), Function.update_of_ne (by omega), dispatch_above frame usLen banks k hk]
  · exact dispatch_above frame usLen banks k hk

end Lengths

section Effects

theorem readFunction_banks (code : U8) (most : Nat) (size : Nat → Nat)
    (callback : (Nat → U8) → Nat → U16 → U16 → ErrorCode × (Nat → U8)) (frame : Nat → U8) (usLen : Nat) (banks : Banks) :
    (readFunction code most size callback frame usLen banks).banks = banks := by
  simp only [readFunction]
  split_ifs <;> try rfl
  split <;> rfl

/-- What a request may do to the banks: nothing, or one write of registers or of coils. -/
inductive Written (banks : Banks) : Banks → Prop
  | nothing : Written banks banks
  | registers (frame : Nat → U8) (p : Nat) (address count : U16) :
      Written banks
        { banks with usSRegHoldBuf := (eMBRegHoldingCBWrite frame p (address + 1#16) count banks.usSRegHoldBuf).2 }
  | coils (buffer : Nat → U8) (p : Nat) (address count : U16) :
      Written banks { banks with ucSCoilBuf := (eMBRegCoilsCBWrite buffer p (address + 1#16) count banks.ucSCoilBuf).2 }

theorem dispatch_written (frame : Nat → U8) (usLen : Nat) (banks : Banks) :
    Written banks (dispatch frame usLen banks).banks := by
  refine dispatch_cases (fun o => Written banks o.banks) frame usLen banks .nothing fun handler hmem => ?_
  have hwrite : ∀ p address count e regs,
      eMBRegHoldingCBWrite frame p (address + 1#16) count banks.usSRegHoldBuf = (e, regs) →
      Written banks { banks with usSRegHoldBuf := regs } := by
    intro p address count e regs h
    have hwritten := @Written.registers banks frame p address count
    rwa [h] at hwritten
  simp only [xFuncHandlers, List.mem_cons, List.not_mem_nil, or_false] at hmem
  rcases hmem with h | h | h | h | h | h | h | h | h | h <;> subst h
  · exact .nothing
  · exact (readFunction_banks _ _ _ _ frame usLen banks).symm ▸ .nothing
  · exact (readFunction_banks _ _ _ _ frame usLen banks).symm ▸ .nothing
  · simp only [eMBFuncWriteMultipleHoldingRegister]
    split_ifs <;> try exact .nothing
    split
    · rename_i h
      exact hwrite _ _ _ _ _ h
    · rename_i h
      exact hwrite _ _ _ _ _ h
  · simp only [eMBFuncWriteHoldingRegister]
    split_ifs
    · exact .registers frame 3 (wordAt frame 1) 1#16
    · exact .nothing
  · simp only [eMBFuncReadWriteMultipleHoldingRegister]
    split_ifs <;> try exact .nothing
    split
    · rename_i h
      split <;> exact hwrite _ _ _ _ _ h
    · rename_i h
      exact hwrite _ _ _ _ _ h
  · exact (readFunction_banks _ _ _ _ frame usLen banks).symm ▸ .nothing
  · simp only [eMBFuncWriteCoil]
    split_ifs <;> first | exact .nothing | exact .coils _ 0 (wordAt frame 1) 1#16
  · simp only [eMBFuncWriteMultipleCoils]
    split_ifs <;> try exact .nothing
    have hcoils := @Written.coils banks frame 6 (wordAt frame 1) (wordAt frame 3)
    split
    · rename_i h
      rwa [h] at hcoils
    · rename_i h
      rwa [h] at hcoils
  · exact (readFunction_banks _ _ _ _ frame usLen banks).symm ▸ .nothing

theorem getElem?_wordsAt (buffer : Nat → U8) (p count k : Nat) (h : k < count) :
    (wordsAt buffer p count)[k]? = some (joinBytes (buffer (p + 2 * k)) (buffer (p + 2 * k + 1))) := by
  induction count generalizing p k with
  | zero => omega
  | succ count ih =>
    cases k with
    | zero => rfl
    | succ k =>
      rw [wordsAt, List.getElem?_cons_succ, ih (p + 2) k (by omega), Nat.add_assoc, Nat.add_comm 2 (2 * k)]
      rfl

theorem wordsAt_congr (buffer buffer' : Nat → U8) (p count : Nat)
    (h : ∀ k, p ≤ k → k < p + 2 * count → buffer' k = buffer k) : wordsAt buffer' p count = wordsAt buffer p count := by
  induction count generalizing p with
  | zero => rfl
  | succ count ih =>
    rw [wordsAt, wordsAt, ih (p + 2) fun k hlo hhi => h k (by omega) (by omega), h p (by omega) (by omega),
      h (p + 1) (by omega) (by omega)]

/-- A write of several registers that is not refused. -/
theorem writeMultiple_done (frame : Nat → U8) (usLen : Nat) (banks : Banks) (hcode : frame 0 = 16#8)
    (hdone : (dispatch frame usLen banks).eException = .none) :
    6 ≤ usLen ∧ 1 ≤ (wordAt frame 3).toNat ∧
      ∀ frame', (∀ k < usLen, frame' k = frame k) → (dispatch frame' usLen banks).banks.usSRegHoldBuf =
        place banks.usSRegHoldBuf (wordAt frame 1).toNat (wordsAt frame' 6 (wordAt frame 3).toNat) := by
  have hhandler : ∀ frame' : Nat → U8, frame' 0 = 16#8 →
      dispatch frame' usLen banks = eMBFuncWriteMultipleHoldingRegister frame' usLen banks := by
    intro frame' h
    simp [dispatch, xFuncHandlers, h]
  rw [hhandler frame hcode] at hdone
  simp only [eMBFuncWriteMultipleHoldingRegister, eMBRegHoldingCBWrite_eq] at hdone
  by_cases hlen : 6 ≤ usLen
  · rw [if_pos hlen] at hdone
    by_cases hcount : 1 ≤ (wordAt frame 3).toNat ∧ (wordAt frame 3).toNat ≤ 0x0078 ∧
        frame 5 = BitVec.ofNat 8 (2 * (wordAt frame 3).toNat)
    · rw [if_pos hcount] at hdone
      by_cases hfit : (wordAt frame 1).toNat + (wordAt frame 3).toNat ≤ sRegHoldingNregs
      · refine ⟨hlen, hcount.1, fun frame' hsame => ?_⟩
        have hword : ∀ offset, offset + 1 < 6 → wordAt frame' offset = wordAt frame offset := by
          intro offset hoffset
          rw [wordAt, wordAt, hsame offset (by omega), hsame (offset + 1) (by omega)]
        rw [hhandler frame' ((hsame 0 (by omega)).trans hcode)]
        simp only [eMBFuncWriteMultipleHoldingRegister, eMBRegHoldingCBWrite_eq]
        rw [if_pos hlen, hword 3 (by omega), hword 1 (by omega), hsame 5 (by omega), if_pos hcount, if_pos hfit]
      · rw [if_neg hfit] at hdone
        cases hdone
    · rw [if_neg hcount] at hdone
      cases hdone
  · rw [if_neg hlen] at hdone
    cases hdone

end Effects

end DataReceiveRelay.ModbusFunctions
