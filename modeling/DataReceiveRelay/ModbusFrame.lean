import DataReceiveRelay.ModbusRtu

/-!
# Frames on the line

An accepted frame is an address, a request and the checksum of both, and nothing
else is. The bits go out byte by byte, low end first; two frames that the
receiver accepts differ in four of them at least, and in bits that lie more than
sixteen apart. Whether a frame that writes registers is as long as it says is not
looked at.
-/

namespace DataReceiveRelay.ModbusFrame

open Words Blocks EventFlags ShiftRegister ModbusCrc ModbusFunctions ModbusRtu

section Format

/-- The checksum as it is sent. -/
def crcBytes (frame : Bytes) : Bytes := [lowByte (usMBCRC16 frame), highByte (usMBCRC16 frame)]

/-- Address, request or reply, checksum. -/
def adu (address : U8) (pdu : Bytes) : Bytes := (address :: pdu) ++ crcBytes (address :: pdu)

/-- The test of `eMBRTUReceive` on the characters of a frame. -/
def accepted (frame : Bytes) : Bool := decide (4 ≤ frame.length) && usMBCRC16 frame == 0#16

@[simp] theorem adu_length (address : U8) (pdu : Bytes) : (adu address pdu).length = pdu.length + 3 := by
  simp [adu, crcBytes]

theorem frameGood_eq (s : State) : frameGood s = accepted (block s.ucRTUBuf 0 s.usRcvBufferPos) := by
  rw [frameGood, accepted, block_length]

theorem usMBCRC16_adu (address : U8) (pdu : Bytes) : usMBCRC16 (adu address pdu) = 0#16 := by
  rw [adu, crcBytes, usMBCRC16_append_eq_zero_iff, joinBytes_split]

theorem accepted_adu (address : U8) (pdu : Bytes) (h : pdu ≠ []) : accepted (adu address pdu) = true := by
  have hpos := List.length_pos_iff.mpr h
  rw [accepted, usMBCRC16_adu, adu_length, Bool.and_eq_true, decide_eq_true_eq]
  exact ⟨by omega, rfl⟩

/-- A frame of four bytes at least ends in two bytes, and starts with one. -/
theorem split_frame (frame : Bytes) (h : 4 ≤ frame.length) :
    ∃ address pdu a b, pdu ≠ [] ∧ frame = (address :: pdu) ++ [a, b] := by
  rcases frame with - | ⟨address, rest⟩
  · simp at h
  obtain ⟨front, b, rfl⟩ := List.eq_nil_or_concat rest |>.resolve_left (by rintro rfl; simp at h)
  obtain ⟨pdu, a, rfl⟩ := List.eq_nil_or_concat front |>.resolve_left (by rintro rfl; simp at h)
  refine ⟨address, pdu, a, b, ?_, by simp⟩
  rintro rfl
  simp at h

theorem adu_of_accepted (frame : Bytes) (h : accepted frame = true) :
    ∃ address pdu, pdu ≠ [] ∧ frame = adu address pdu := by
  rw [accepted, Bool.and_eq_true, decide_eq_true_eq, beq_iff_eq] at h
  obtain ⟨address, pdu, a, b, hpdu, rfl⟩ := split_frame frame h.1
  have hcrc := (usMBCRC16_append_eq_zero_iff (address :: pdu) a b).mp h.2
  refine ⟨address, pdu, hpdu, ?_⟩
  rw [adu, crcBytes, ← hcrc, lowByte_joinBytes, highByte_joinBytes]

end Format

section Sending

/-- What `eMBRTUSend` leaves in the buffer is a frame. -/
theorem block_withCrc (buffer : Nat → U8) (address : U8) (usLength : Nat) :
    block (withCrc (Function.update buffer 0 address) (1 + usLength)) 0 (1 + usLength + 2) =
      adu address (block buffer 1 usLength) := by
  have hfront : block (Function.update buffer 0 address) 0 (1 + usLength) = address :: block buffer 1 usLength := by
    rw [Nat.add_comm 1 usLength, block_succ, Function.update_self]
    refine congrArg (address :: ·) (block_congr _ _ 1 usLength fun a ha _ => ?_)
    rw [Function.update_of_ne (by omega)]
  have hplace : withCrc (Function.update buffer 0 address) (1 + usLength) =
      place (Function.update buffer 0 address) (1 + usLength) (crcBytes (address :: block buffer 1 usLength)) := by
    rw [withCrc, hfront, crcBytes, place_cons, place_cons, place_nil]
  rw [hplace, block_add, block_place_disjoint _ _ _ _ _ (Or.inl (by omega)), hfront, Nat.zero_add]
  exact congrArg ((address :: block buffer 1 usLength) ++ ·) (block_place _ _ _)

/-- The parts of a frame in the buffer. -/
theorem adu_cells (buffer : Nat → U8) (address : U8) (pdu : Bytes)
    (h : block buffer 0 (pdu.length + 3) = adu address pdu) :
    buffer 0 = address ∧ block (pduOf buffer) 0 pdu.length = pdu := by
  have hparts : adu address pdu = [address] ++ (pdu ++ crcBytes (address :: pdu)) := rfl
  rw [show pdu.length + 3 = 1 + (pdu.length + 2) by omega, block_add, block_add] at h
  obtain ⟨hfirst, hrest⟩ := List.append_inj (h.trans hparts) (by rw [block_length]; rfl)
  obtain ⟨hpdu, -⟩ := List.append_inj hrest (by rw [block_length])
  rw [block_succ, block_zero] at hfirst
  exact ⟨List.cons.inj hfirst |>.1, (block_comp _ 1 0 pdu.length).trans hpdu⟩

theorem frameReceived_of_good (ucMBAddress : U8) (s : State) (hfit : s.usRcvBufferPos ≤ mbSerPduSizeMax)
    (hgood : accepted (block s.ucRTUBuf 0 s.usRcvBufferPos) = true)
    (hmine : s.ucRTUBuf 0 = ucMBAddress ∨ s.ucRTUBuf 0 = 0#8) :
    frameReceived ucMBAddress s = xMBPortEventPost .execute
      { s with ucRcvAddress := s.ucRTUBuf 0, usLength := s.usRcvBufferPos - 3, framed := true } := by
  rw [frameReceived, if_neg (not_lt.mpr hfit), frameGood_eq, hgood, if_pos rfl]
  dsimp only
  rw [if_pos hmine]

/-- The characters are an address of this slave or that of all slaves, a request of one byte at least, and their
checksum. -/
def WellFormed (ucMBAddress : U8) (frame : Bytes) (address : U8) (pdu : Bytes) : Prop :=
  pdu ≠ [] ∧ (address = ucMBAddress ∨ address = 0#8) ∧ frame = adu address pdu

/-- A well-formed frame is good, and its parts are where the poll looks for them. -/
theorem wellFormed_cells (ucMBAddress : U8) (s : State) (address : U8) (pdu : Bytes)
    (h : WellFormed ucMBAddress (block s.ucRTUBuf 0 s.usRcvBufferPos) address pdu) :
    accepted (block s.ucRTUBuf 0 s.usRcvBufferPos) = true ∧ s.ucRTUBuf 0 = address ∧
      s.usRcvBufferPos = pdu.length + 3 ∧ block (pduOf s.ucRTUBuf) 0 pdu.length = pdu := by
  obtain ⟨hpdu, -, hframe⟩ := h
  have hlen := congrArg List.length hframe
  rw [block_length, adu_length] at hlen
  have hcells := adu_cells s.ucRTUBuf address pdu (hlen ▸ hframe)
  refine ⟨?_, hcells.1, hlen, hcells.2⟩
  rw [hframe]
  exact accepted_adu address pdu hpdu

theorem exists_wellFormed (ucMBAddress : U8) (s : State)
    (hgood : accepted (block s.ucRTUBuf 0 s.usRcvBufferPos) = true)
    (hmine : s.ucRTUBuf 0 = ucMBAddress ∨ s.ucRTUBuf 0 = 0#8) :
    ∃ address pdu, WellFormed ucMBAddress (block s.ucRTUBuf 0 s.usRcvBufferPos) address pdu := by
  obtain ⟨address, pdu, hpdu, hframe⟩ := adu_of_accepted _ hgood
  have hlen := congrArg List.length hframe
  rw [block_length, adu_length] at hlen
  have hcells := adu_cells s.ucRTUBuf address pdu (hlen ▸ hframe)
  exact ⟨address, pdu, hpdu, hcells.1 ▸ hmine, hframe⟩

/-- The poll hands a frame on exactly if it is well formed, and the address and the request that it hands on are those
of the frame. -/
theorem frame_taken_iff (ucMBAddress : U8) (s : State) (hfit : s.usRcvBufferPos ≤ mbSerPduSizeMax)
    (hnone : s.event.set = 0#8) (hthread : s.event.thread = .running) :
    let r := frameReceived ucMBAddress s
    (r.event.set = EventType.execute.mask ↔
      ∃ address pdu, WellFormed ucMBAddress (block s.ucRTUBuf 0 s.usRcvBufferPos) address pdu) ∧
    ∀ address pdu, WellFormed ucMBAddress (block s.ucRTUBuf 0 s.usRcvBufferPos) address pdu →
      r.ucRcvAddress = address ∧ r.usLength = pdu.length ∧ block (pduOf r.ucRTUBuf) 0 r.usLength = pdu := by
  intro r
  have htaken (hgood : accepted (block s.ucRTUBuf 0 s.usRcvBufferPos) = true)
      (hmine : s.ucRTUBuf 0 = ucMBAddress ∨ s.ucRTUBuf 0 = 0#8) : r = { s with
        ucRcvAddress := s.ucRTUBuf 0
        usLength := s.usRcvBufferPos - 3
        framed := true
        event := ⟨EventType.execute.mask, .running⟩ } := by
    show frameReceived ucMBAddress s = _
    rw [frameReceived_of_good ucMBAddress s hfit hgood hmine, xMBPortEventPost,
      send_running (by simp [hthread])]
    dsimp only
    rw [hnone, hthread, BitVec.zero_or]
  refine ⟨⟨fun h => ?_, ?_⟩, fun address pdu hframe => ?_⟩
  · have hdropped (hr : r = s) : False := by
      rw [hr, hnone] at h
      exact mask_ne_zero _ h.symm
    have hgood : accepted (block s.ucRTUBuf 0 s.usRcvBufferPos) = true := by
      by_contra hbad
      apply hdropped
      show frameReceived ucMBAddress s = s
      rw [frameReceived, if_neg (not_lt.mpr hfit), frameGood_eq, if_neg hbad]
    have hmine : s.ucRTUBuf 0 = ucMBAddress ∨ s.ucRTUBuf 0 = 0#8 := by
      by_contra hother
      have hset : r.event.set = s.event.set := by
        show (frameReceived ucMBAddress s).event.set = s.event.set
        rw [frameReceived, if_neg (not_lt.mpr hfit), frameGood_eq, hgood, if_pos rfl]
        dsimp only
        rw [if_neg hother]
      rw [hset, hnone] at h
      exact mask_ne_zero _ h.symm
    exact exists_wellFormed ucMBAddress s hgood hmine
  · rintro ⟨address, pdu, hframe⟩
    obtain ⟨hgood, haddress, -, -⟩ := wellFormed_cells ucMBAddress s address pdu hframe
    rw [htaken hgood (haddress.symm ▸ hframe.2.1)]
  · obtain ⟨hgood, haddress, hlen, hcells⟩ := wellFormed_cells ucMBAddress s address pdu hframe
    have hlength : s.usRcvBufferPos - 3 = pdu.length := by omega
    rw [htaken hgood (haddress.symm ▸ hframe.2.1)]
    refine ⟨haddress, hlength, ?_⟩
    dsimp only
    rw [hlength]
    exact hcells

/-- A request for the slave ID that has arrived. -/
def idRequested : State :=
  { start blankBanks (place (fun _ => 0#8) 0 (adu 1#8 [17#8])) (fun _ => none) with usRcvBufferPos := 4 }

theorem frame_taken_slave_id :
    (frameReceived 1#8 idRequested).event.set = EventType.execute.mask ∧
      (frameReceived 1#8 idRequested).ucRcvAddress = 1#8 ∧ (frameReceived 1#8 idRequested).usLength = 1 := by
  have hframe : WellFormed 1#8 (block idRequested.ucRTUBuf 0 idRequested.usRcvBufferPos) 1#8 [17#8] :=
    ⟨by decide, .inl rfl, by decide +kernel⟩
  obtain ⟨hiff, hparts⟩ := frame_taken_iff 1#8 idRequested (by decide) rfl rfl
  obtain ⟨haddress, hlength, -⟩ := hparts 1#8 [17#8] hframe
  exact ⟨hiff.mpr ⟨1#8, [17#8], hframe⟩, haddress, hlength⟩

/-- What one device sends, a device of that address receives: the frame in the send buffer, once it has arrived, is
handed on with the length and the bytes the sender had. -/
theorem send_receive (address : U8) (sender receiver : State) (hidle : sender.eRcvState = .idle)
    (hpos : 0 < sender.usLength) (hfit : sender.usLength ≤ 253)
    (hcount : receiver.usRcvBufferPos = (eMBRTUSend address sender).usSndBufferCount)
    (harrived : block receiver.ucRTUBuf 0 receiver.usRcvBufferPos =
      block (eMBRTUSend address sender).ucRTUBuf 0 (eMBRTUSend address sender).usSndBufferCount) :
    let r := frameReceived address receiver
    r.event = send anyEvent EventType.execute.mask receiver.event ∧ r.ucRcvAddress = address ∧
      r.usLength = sender.usLength ∧
      block (pduOf r.ucRTUBuf) 0 r.usLength = block (pduOf sender.ucRTUBuf) 0 sender.usLength := by
  have hsend : eMBRTUSend address sender = { sender with
      ucRTUBuf := withCrc (Function.update sender.ucRTUBuf 0 address) (1 + sender.usLength)
      sndBufferCur := 0
      usSndBufferCount := 1 + sender.usLength + 2
      eSndState := .xmit
      rxEnabled := false
      transStart := true } := by
    rw [eMBRTUSend, if_pos hidle]
  have hpdu : block (pduOf sender.ucRTUBuf) 0 sender.usLength = block sender.ucRTUBuf 1 sender.usLength :=
    block_comp _ 1 0 _
  rw [hsend] at hcount harrived
  dsimp only at hcount
  rw [block_withCrc, ← hpdu] at harrived
  have hlen : receiver.usRcvBufferPos = (block (pduOf sender.ucRTUBuf) 0 sender.usLength).length + 3 := by
    rw [hcount, block_length]
    omega
  have hgood : accepted (block receiver.ucRTUBuf 0 receiver.usRcvBufferPos) = true := by
    rw [harrived]
    apply accepted_adu
    intro hnil
    have hzero := congrArg List.length hnil
    rw [block_length] at hzero
    exact absurd hzero (Nat.ne_of_gt hpos)
  have hcells := adu_cells receiver.ucRTUBuf address _ (hlen ▸ harrived)
  have hroom : receiver.usRcvBufferPos ≤ mbSerPduSizeMax := by
    rw [hcount, mbSerPduSizeMax]
    omega
  have hreceived : receiver.usRcvBufferPos - 3 = sender.usLength := by
    rw [hlen, block_length, Nat.add_sub_cancel]
  rw [frameReceived_of_good address receiver hroom hgood (Or.inl hcells.1)]
  refine ⟨rfl, hcells.1, hreceived, ?_⟩
  show block (pduOf receiver.ucRTUBuf) 0 (receiver.usRcvBufferPos - 3) = _
  have hback := hcells.2
  rw [block_length] at hback
  rw [hreceived, hback]

/-- A device about to answer with an exception. -/
def answering : State :=
  { start blankBanks (place (fun _ => 0#8) 1 [0x83#8, 0x02#8]) (fun _ => none) with eRcvState := .idle, usLength := 2 }

theorem send_receive_exception :
    (frameReceived 1#8 { answering with
      ucRTUBuf := (eMBRTUSend 1#8 answering).ucRTUBuf
      usRcvBufferPos := (eMBRTUSend 1#8 answering).usSndBufferCount }).usLength = 2 :=
  (send_receive 1#8 answering { answering with
    ucRTUBuf := (eMBRTUSend 1#8 answering).ucRTUBuf
    usRcvBufferPos := (eMBRTUSend 1#8 answering).usSndBufferCount } rfl (by decide) (by decide) rfl rfl).2.2.1

end Sending

section Damage

/-- The bits in which two frames differ on the line. -/
def damage (sent received : Bytes) : List Bool := List.zipWith xor (wireBits sent) (wireBits received)

/-- One to three bits, any odd number of bits, or bits that lie within sixteen. -/
def Detected (bits : List Bool) : Prop :=
  (0 < bits.count true ∧ bits.count true < 4) ∨ Odd (bits.count true) ∨
    (0 < bits.count true ∧ ∃ start, ∀ i : Nat, bits[i]? = some true → start ≤ i ∧ i < start + 16)

theorem polynomial_odd : parity polynomial = 1 := by
  decide +kernel

theorem usMBCRC16_ne_of_detected (sent received : Bytes) (hlen : sent.length = received.length)
    (hfit : sent.length ≤ mbSerPduSizeMax) (h : Detected (damage sent received)) :
    usMBCRC16 sent ≠ usMBCRC16 received := by
  have hbits : (wireBits sent).length = (wireBits received).length := by
    rw [wireBits_length, wireBits_length, hlen]
  have hshort : (wireBits sent).length ≤ 2048 := by
    rw [wireBits_length]
    rw [mbSerPduSizeMax] at hfit
    omega
  have hodd : Odd ((damage sent received).count true) → usMBCRC16 sent ≠ usMBCRC16 received := by
    rw [usMBCRC16_eq_feed, usMBCRC16_eq_feed]
    exact feed_ne_of_odd polynomial _ (by decide) polynomial_odd _ _ hbits
  rcases h with ⟨hpos, hfew⟩ | h | ⟨hpos, start, hburst⟩
  · by_cases htwo : (damage sent received).count true = 2
    · rw [usMBCRC16_eq_feed, usMBCRC16_eq_feed]
      exact feed_ne_of_two polynomial _ polynomial_proper 2048 polynomial_period _ _ hbits hshort htwo
    · apply hodd
      rw [Nat.odd_iff]
      omega
  · exact hodd h
  · rw [usMBCRC16_eq_feed, usMBCRC16_eq_feed]
    apply feed_ne_of_burst polynomial _ polynomial_proper _ _ hbits start
    · intro i hi
      exact hburst i ((difference_getElem? _ _ hbits i).mpr hi)
    · intro heq
      obtain ⟨i, hi⟩ := List.getElem?_of_mem (List.count_pos_iff.mp hpos)
      exact (difference_getElem? _ _ hbits i).mp hi (by rw [heq])

/-- A frame that was damaged on its way in up to three bits, in an odd number of bits or within sixteen bits is dropped
by the poll as if it had not come. -/
theorem damaged_frame_dropped (ucMBAddress address : U8) (pdu : Bytes) (s : State)
    (hlen : s.usRcvBufferPos = (adu address pdu).length) (hfit : s.usRcvBufferPos ≤ mbSerPduSizeMax)
    (hdamage : Detected (damage (adu address pdu) (block s.ucRTUBuf 0 s.usRcvBufferPos))) :
    frameReceived ucMBAddress s = s := by
  have hne := usMBCRC16_ne_of_detected _ _ (by rw [block_length, hlen]) (hlen ▸ hfit) hdamage
  rw [usMBCRC16_adu] at hne
  have hbad : frameGood s = false := by
    rw [frameGood, Bool.and_eq_false_iff]
    exact Or.inr (beq_eq_false_iff_ne.mpr hne.symm)
  rw [frameReceived, if_neg (not_lt.mpr hfit), hbad, if_neg (by decide)]

/-- A request for one register, with two bits turned. -/
theorem damaged_frame_dropped_two_bits :
    let frame := [0x01#8, 0x03#8, 0x00#8, 0x40#8, 0x00#8, 0x01#8, 0x84#8, 0x0B#8]
    let s := { start blankBanks (place (fun _ => 0#8) 0 frame) (fun _ => none) with usRcvBufferPos := 8 }
    Detected (damage (adu 1#8 [3#8, 0#8, 0#8, 0#8, 1#8]) (block s.ucRTUBuf 0 s.usRcvBufferPos)) ∧
      frameReceived 1#8 s = s := by
  intro frame s
  have h : Detected (damage (adu 1#8 [3#8, 0#8, 0#8, 0#8, 1#8]) (block s.ucRTUBuf 0 s.usRcvBufferPos)) :=
    Or.inl (by decide +kernel)
  exact ⟨h, damaged_frame_dropped 1#8 1#8 [3#8, 0#8, 0#8, 0#8, 1#8] s (by simp [s]) (by decide) h⟩

end Damage

section Requests

/-- The holding registers after the poll has taken a frame and executed the request in it. -/
def stored (ucMBAddress : U8) (s : State) : Nat → U16 :=
  (execute ucMBAddress (frameReceived ucMBAddress s)).banks.usSRegHoldBuf

theorem stored_eq (ucMBAddress : U8) (s : State) (hfit : s.usRcvBufferPos ≤ mbSerPduSizeMax)
    (htaken : handedOn ucMBAddress s = true) :
    stored ucMBAddress s = (dispatch (pduOf s.ucRTUBuf) (s.usRcvBufferPos - 3) s.banks).banks.usSRegHoldBuf := by
  rw [handedOn, Bool.and_eq_true, frameGood_eq, Bool.or_eq_true, decide_eq_true_eq, decide_eq_true_eq] at htaken
  rw [stored, frameReceived_of_good ucMBAddress s hfit htaken.1 htaken.2, xMBPortEventPost, execute]
  dsimp only
  rw [if_neg (by decide), reply, eMBRTUSend]
  split_ifs <;> rfl

/-- The frame in the buffer, and something else behind it. -/
def withRest (s : State) (rest : Nat → U8) : State :=
  { s with ucRTUBuf := place rest 0 (block s.ucRTUBuf 0 s.usRcvBufferPos) }

theorem withRest_cell (s : State) (rest : Nat → U8) (k : Nat) :
    (withRest s rest).ucRTUBuf k = if k < s.usRcvBufferPos then s.ucRTUBuf k else rest k := by
  rw [withRest]
  dsimp only
  rw [place_block]
  simp

/-- A frame that is handed on is handed on whatever stands behind it. -/
theorem handedOn_withRest (ucMBAddress : U8) (s : State) (rest : Nat → U8) (htaken : handedOn ucMBAddress s = true) :
    handedOn ucMBAddress (withRest s rest) = true := by
  have hblock : block (withRest s rest).ucRTUBuf 0 (withRest s rest).usRcvBufferPos =
      block s.ucRTUBuf 0 s.usRcvBufferPos := by
    apply block_congr
    intro a _ ha
    rw [withRest_cell, if_pos (by simpa [withRest] using ha)]
  have hlong : 0 < s.usRcvBufferPos := by
    by_contra hzero
    rw [handedOn, frameGood, decide_eq_false (by omega)] at htaken
    cases htaken
  rw [handedOn, frameGood_eq, hblock, ← frameGood_eq, withRest_cell, if_pos hlong]
  exact htaken

/-- A write of several registers whose frame is accepted, and which is not refused, takes its values from the frame
exactly if the request is at most two bytes shorter than its register count says; then the checksum is stored for the
bytes that are missing. From a shorter one, what an earlier frame has left in the buffer is stored. -/
theorem writeMultiple_determined_iff (ucMBAddress : U8) (s : State) (hfit : s.usRcvBufferPos ≤ mbSerPduSizeMax)
    (htaken : handedOn ucMBAddress s = true) (hcode : pduOf s.ucRTUBuf 0 = 16#8)
    (hdone : (dispatch (pduOf s.ucRTUBuf) (s.usRcvBufferPos - 3) s.banks).eException = .none) :
    (∀ rest, stored ucMBAddress (withRest s rest) = stored ucMBAddress s) ↔
      6 + 2 * (wordAt (pduOf s.ucRTUBuf) 3).toNat ≤ (s.usRcvBufferPos - 3) + 2 := by
  obtain ⟨hlen, hcount, hdispatch⟩ := writeMultiple_done _ _ _ hcode hdone
  have hvalues (rest : Nat → U8) : stored ucMBAddress (withRest s rest) = place s.banks.usSRegHoldBuf
      (wordAt (pduOf s.ucRTUBuf) 1).toNat
      (wordsAt (pduOf (withRest s rest).ucRTUBuf) 6 (wordAt (pduOf s.ucRTUBuf) 3).toNat) := by
    rw [stored_eq ucMBAddress (withRest s rest) hfit (handedOn_withRest ucMBAddress s rest htaken)]
    refine hdispatch _ fun k hk => ?_
    rw [pduOf, pduOf, withRest_cell, if_pos (by omega)]
  rw [stored_eq ucMBAddress s hfit htaken, hdispatch _ fun _ _ => rfl]
  generalize (wordAt (pduOf s.ucRTUBuf) 3).toNat = n at *
  generalize (wordAt (pduOf s.ucRTUBuf) 1).toNat = a at *
  constructor
  · intro hall
    by_contra hshort
    -- another byte where the last register should end
    have hcell := congrFun (hall fun k => s.ucRTUBuf k + 1#8) (a + (n - 1))
    rw [hvalues, place, place, if_pos (by omega), if_pos (by omega), Nat.add_sub_cancel_left,
      getElem?_wordsAt _ _ _ _ (by omega), getElem?_wordsAt _ _ _ _ (by omega), Option.getD_some,
      Option.getD_some] at hcell
    have hlow := congrArg lowByte hcell
    rw [lowByte_joinBytes, lowByte_joinBytes, pduOf, pduOf, withRest_cell, if_neg (by omega)] at hlow
    exact absurd hlow (by simp)
  · intro hlong rest
    rw [hvalues, wordsAt_congr (pduOf s.ucRTUBuf) _ 6 n fun k _ hk => ?_]
    rw [pduOf, pduOf, withRest_cell, if_pos (by omega)]

/-- Three registers announced and one sent: the checksum is stored in the second, and in the third what was there. -/
def cutRequest : State :=
  { start blankBanks (place (fun _ => 0#8) 0 (adu 1#8 [16#8, 0#8, 0#8, 0#8, 3#8, 6#8, 0#8, 1#8])) (fun _ => none) with
    usRcvBufferPos := 11 }

theorem writeMultiple_determined_cut : ¬ ∀ rest, stored 1#8 (withRest cutRequest rest) = stored 1#8 cutRequest := by
  intro h
  have hlong := (writeMultiple_determined_iff 1#8 cutRequest (by decide) (by decide +kernel) (by decide +kernel)
    (by decide +kernel)).mp h
  exact absurd hlong (by decide +kernel)

end Requests

end DataReceiveRelay.ModbusFrame
