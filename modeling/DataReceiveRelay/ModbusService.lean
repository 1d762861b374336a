import DataReceiveRelay.ModbusCoils

/-!
# The service of the slave

What a host may ask of the registers and coils, how a request is written, and
what it means: a table is read or written in one piece, or the request is refused
and nothing changes. The handlers are compared with this meaning.
-/

namespace DataReceiveRelay.ModbusService

open Words Blocks PackedBits ModbusCrc Registers ModbusFunctions ModbusCoils

inductive Request where
  | readHolding (address count : U16)
  | readInput (address count : U16)
  | writeSingle (address value : U16)
  | writeMultiple (address : U16) (values : List U16)
  | readWrite (readAddress readCount writeAddress : U16) (values : List U16)
  | readCoils (address count : U16)
  | readDiscretes (address count : U16)
  | writeCoil (address : U16) (value : Bool)
  | writeCoils (address : U16) (values : List Bool)
  | reportSlaveID
  deriving DecidableEq, Repr

def Request.code : Request → U8
  | .readHolding _ _ => 3#8
  | .readInput _ _ => 4#8
  | .writeSingle _ _ => 6#8
  | .writeMultiple _ _ => 16#8
  | .readWrite _ _ _ _ => 23#8
  | .readCoils _ _ => 1#8
  | .readDiscretes _ _ => 2#8
  | .writeCoil _ _ => 5#8
  | .writeCoils _ _ => 15#8
  | .reportSlaveID => 17#8

/-- Registers behind their number and the number of their bytes. -/
def valueBytes (values : List U16) : Bytes :=
  wordBytes (BitVec.ofNat 16 values.length) ++ BitVec.ofNat 8 (2 * values.length) :: values.flatMap wordBytes

/-- Coils behind their number and the number of their bytes. -/
def coilBytes (values : List Bool) : Bytes :=
  wordBytes (BitVec.ofNat 16 values.length) ++ BitVec.ofNat 8 (octets values.length) :: pack values

def Request.data : Request → Bytes
  | .readHolding address count => wordBytes address ++ wordBytes count
  | .readInput address count => wordBytes address ++ wordBytes count
  | .writeSingle address value => wordBytes address ++ wordBytes value
  | .writeMultiple address values => wordBytes address ++ valueBytes values
  | .readWrite readAddress readCount writeAddress values =>
    wordBytes readAddress ++ wordBytes readCount ++ wordBytes writeAddress ++ valueBytes values
  | .readCoils address count => wordBytes address ++ wordBytes count
  | .readDiscretes address count => wordBytes address ++ wordBytes count
  | .writeCoil address value => wordBytes address ++ [if value then 0xFF#8 else 0x00#8, 0x00#8]
  | .writeCoils address values => wordBytes address ++ coilBytes values
  | .reportSlaveID => []

/-- The request as it is sent. -/
def Request.pdu (r : Request) : Bytes := r.code :: r.data

/-- The reply to a request that is refused. -/
def refusal (code : U8) (e : Exception) : Bytes := [code ||| 0x80#8, e.code]

/-- The reply to a reading request. -/
def reading (code : U8) (values : List U16) : Bytes :=
  code :: BitVec.ofNat 8 (2 * values.length) :: values.flatMap wordBytes

/-- Read `count` registers of a table of `size`. -/
def respondRead (code : U8) (regs : Nat → U16) (size most : Nat) (address count : U16) : Bytes :=
  if 1 ≤ count.toNat ∧ count.toNat ≤ most then
    if address.toNat + count.toNat ≤ size then reading code (block regs address.toNat count.toNat)
    else refusal code .illegalDataAddress
  else refusal code .illegalDataValue

/-- The table with registers written in one piece, if they fit. -/
def stored (regs : Table) (address : U16) (values : List U16) : Option Table :=
  if address.toNat + values.length ≤ sRegHoldingNregs then some (place regs address.toNat values) else none

/-- Read `count` of `size` bits. -/
def respondBits (code : U8) (bits : Nat → U8) (size : Nat) (address count : U16) : Bytes :=
  if 1 ≤ count.toNat ∧ count.toNat ≤ 0x07CF then
    if address.toNat + count.toNat ≤ size then
      code :: BitVec.ofNat 8 (octets count.toNat) :: pack (block (bitAt bits) address.toNat count.toNat)
    else refusal code .illegalDataAddress
  else refusal code .illegalDataValue

/-- The coils with some of them written in one piece, if they fit. -/
def storedBits (coils : Nat → U8) (address : U16) (values : List Bool) : Option (Nat → U8) :=
  if address.toNat + values.length ≤ sCoilNcoils then some (ofBits (place (bitAt coils) address.toNat values)) else none

/-- What a request means. -/
def respond : Request → Banks → Bytes × Banks
  | .readHolding address count, banks =>
    (respondRead 3#8 banks.usSRegHoldBuf sRegHoldingNregs 125 address count, banks)
  | .readInput address count, banks => (respondRead 4#8 banks.usSRegInBuf sRegInputNregs 124 address count, banks)
  | .writeSingle address value, banks =>
    match stored banks.usSRegHoldBuf address [value] with
    | some regs => (6#8 :: (wordBytes address ++ wordBytes value), { banks with usSRegHoldBuf := regs })
    | none => (refusal 6#8 .illegalDataAddress, banks)
  | .writeMultiple address values, banks =>
    if 1 ≤ values.length ∧ values.length ≤ 120 then
      match stored banks.usSRegHoldBuf address values with
      | some regs =>
        (16#8 :: (wordBytes address ++ wordBytes (BitVec.ofNat 16 values.length)), { banks with usSRegHoldBuf := regs })
      | none => (refusal 16#8 .illegalDataAddress, banks)
    else (refusal 16#8 .illegalDataValue, banks)
  | .readWrite readAddress readCount writeAddress values, banks =>
    if (1 ≤ readCount.toNat ∧ readCount.toNat ≤ 125) ∧ 1 ≤ values.length ∧ values.length ≤ 121 then
      match stored banks.usSRegHoldBuf writeAddress values with
      | some regs =>
        (respondRead 23#8 regs sRegHoldingNregs 125 readAddress readCount, { banks with usSRegHoldBuf := regs })
      | none => (refusal 23#8 .illegalDataAddress, banks)
    else (refusal 23#8 .illegalDataValue, banks)
  | .readCoils address count, banks => (respondBits 1#8 banks.ucSCoilBuf sCoilNcoils address count, banks)
  | .readDiscretes address count, banks =>
    (respondBits 2#8 banks.ucSDiscInBuf sDiscreteInputNdiscretes address count, banks)
  | .writeCoil address value, banks =>
    match storedBits banks.ucSCoilBuf address [value] with
    | some coils =>
      (5#8 :: (wordBytes address ++ [if value then 0xFF#8 else 0x00#8, 0x00#8]), { banks with ucSCoilBuf := coils })
    | none => (refusal 5#8 .illegalDataAddress, banks)
  | .writeCoils address values, banks =>
    if 1 ≤ values.length ∧ values.length ≤ 0x07B0 then
      match storedBits banks.ucSCoilBuf address values with
      | some coils =>
        (15#8 :: (wordBytes address ++ wordBytes (BitVec.ofNat 16 values.length)), { banks with ucSCoilBuf := coils })
      | none => (refusal 15#8 .illegalDataAddress, banks)
    else (refusal 15#8 .illegalDataValue, banks)
  | .reportSlaveID, banks => (17#8 :: banks.ucMBSlaveID, banks)

section Handlers

/-- What goes out: the reply in the buffer or the error frame. -/
def answer (code : U8) (o : Outcome) : Bytes × Banks :=
  (if o.eException ≠ .none then refusal code o.eException else block o.frame 0 o.usLen, o.banks)

/-- The reply that the poll builds, read off the buffer. -/
def answered (frame : Nat → U8) (usLen : Nat) (banks : Banks) : Bytes × Banks :=
  let r := reply frame usLen banks
  (block r.1 0 r.2.1, r.2.2)

theorem update_pair (frame : Nat → U8) (a b : U8) :
    Function.update (Function.update frame 0 a) 1 b = place frame 0 [a, b] := by
  rw [place_cons, place_cons, place_nil]

theorem answered_eq (frame : Nat → U8) (usLen : Nat) (banks : Banks) :
    answered frame usLen banks = answer (frame 0) (dispatch frame usLen banks) := by
  rw [answered, reply, answer]
  split
  · rw [update_pair]
    exact congrArg (·, _) (block_place _ 0 [frame 0 ||| 0x80#8, _])
  · rfl

/-- Each installed handler gets the requests with its function code. -/
theorem dispatch_of_mem (frame : Nat → U8) (usLen : Nat) (banks : Banks) (code : U8)
    (handler : (Nat → U8) → Nat → Banks → Outcome) (h : (code, handler) ∈ xFuncHandlers) (hf : frame 0 = code) :
    dispatch frame usLen banks = handler frame usLen banks := by
  simp only [xFuncHandlers, List.mem_cons, List.not_mem_nil, or_false, Prod.mk.injEq] at h
  rcases h with h | h | h | h | h | h | h | h | h | h <;> obtain ⟨rfl, rfl⟩ := h <;>
    simp [dispatch, xFuncHandlers, hf]

/-- Function code, byte count and registers, laid one after the other over the request. -/
theorem block_reading (code : U8) (frame : Nat → U8) (regs : Nat → U16) (address count : Nat) :
    block (place (Function.update (Function.update frame 0 code) 1 (BitVec.ofNat 8 (2 * count))) 2
      ((block regs address count).flatMap wordBytes)) 0 (2 + 2 * count) = reading code (block regs address count) := by
  have hdata : reading code (block regs address count) =
      [code, BitVec.ofNat 8 (2 * count)] ++ (block regs address count).flatMap wordBytes := by
    rw [reading, block_length]
    rfl
  have hlen : (reading code (block regs address count)).length = 2 + 2 * count := by
    rw [hdata, List.length_append, flatMap_wordBytes_length, block_length]
    rfl
  have hblock := block_place frame 0 (reading code (block regs address count))
  rw [hlen, hdata, place_append] at hblock
  rw [update_pair, hdata]
  exact hblock

/-- The reading functions on registers answer as they should. -/
theorem readFunction_answer (code : U8) (most size : Nat) (regs : Nat → U16) (frame : Nat → U8) (banks : Banks)
    (callback : (Nat → U8) → Nat → U16 → U16 → ErrorCode × (Nat → U8))
    (hcallback : ∀ buffer p address count, callback buffer p (address + 1#16) count =
      if address.toNat + count.toNat ≤ size then
        (.noErr, place buffer p ((block regs address.toNat count.toNat).flatMap wordBytes))
      else (.noReg, buffer)) :
    answer code (readFunction code most (2 * ·) callback frame 5 banks) =
      (respondRead code regs size most (wordAt frame 1) (wordAt frame 3), banks) := by
  rw [readFunction, if_pos rfl, respondRead]
  by_cases hcount : 1 ≤ (wordAt frame 3).toNat ∧ (wordAt frame 3).toNat ≤ most
  · rw [if_pos hcount, if_pos hcount]
    simp only [hcallback]
    by_cases hfit : (wordAt frame 1).toNat + (wordAt frame 3).toNat ≤ size
    · rw [if_pos hfit, if_pos hfit, ← block_reading code frame regs]
      rfl
    · rw [if_neg hfit, if_neg hfit, answer]
      rfl
  · rw [if_neg hcount, if_neg hcount, answer]
    rfl

/-- The writing callback stores the registers of the request, or refuses them as a whole. -/
theorem eMBRegHoldingCBWrite_stored (buffer : Nat → U8) (p : Nat) (address count : U16) (regs : Table)
    (values : List U16) (hcount : count.toNat = values.length) (hvalues : wordsAt buffer p values.length = values) :
    eMBRegHoldingCBWrite buffer p (address + 1#16) count regs =
      match stored regs address values with
      | some regs' => (.noErr, regs')
      | none => (.noReg, regs) := by
  rw [eMBRegHoldingCBWrite_eq, hcount, hvalues, stored]
  by_cases hfit : address.toNat + values.length ≤ sRegHoldingNregs
  · rw [if_pos hfit, if_pos hfit]
  · rw [if_neg hfit, if_neg hfit]

/-- The two numbers of a request of five bytes. -/
theorem wordAt_pair (frame : Nat → U8) (code : U8) (first second : U16)
    (h : block frame 0 5 = code :: (wordBytes first ++ wordBytes second)) :
    wordAt frame 1 = first ∧ wordAt frame 3 = second := by
  simp only [block_succ, block_zero, wordBytes, List.cons_append, List.nil_append, List.cons.injEq] at h
  obtain ⟨-, h₁, h₂, h₃, h₄, -⟩ := h
  constructor
  · rw [wordAt, h₁, h₂, joinBytes_split]
  · rw [wordAt, h₃, h₄, joinBytes_split]

theorem writeHolding_answer (frame : Nat → U8) (banks : Banks) (address value : U16)
    (hframe : block frame 0 5 = (Request.writeSingle address value).pdu) :
    answer 6#8 (eMBFuncWriteHoldingRegister frame 5 banks) = respond (.writeSingle address value) banks := by
  obtain ⟨haddress, hword⟩ := wordAt_pair frame 6#8 address value hframe
  have hvalue : wordsAt frame 3 1 = [value] := congrArg (fun v => [v]) hword
  rw [eMBFuncWriteHoldingRegister, if_pos rfl, haddress, respond,
    eMBRegHoldingCBWrite_stored frame 3 address 1#16 banks.usSRegHoldBuf [value] rfl hvalue]
  cases stored banks.usSRegHoldBuf address [value] with
  | some regs => exact congrArg (·, _) hframe
  | none => rfl

/-- What a request for writing says about its registers. -/
theorem valueBytes_cells (frame : Nat → U8) (p : Nat) (values : List U16)
    (h : block frame p (3 + 2 * values.length) = valueBytes values) :
    wordAt frame p = BitVec.ofNat 16 values.length ∧ frame (p + 2) = BitVec.ofNat 8 (2 * values.length) ∧
      wordsAt frame (p + 3) values.length = values := by
  have hsplit : valueBytes values =
      (wordBytes (BitVec.ofNat 16 values.length) ++ [BitVec.ofNat 8 (2 * values.length)]) ++ values.flatMap wordBytes := by
    rw [valueBytes, List.append_assoc, List.singleton_append]
  rw [block_add, hsplit] at h
  obtain ⟨hhead, hvalues⟩ := List.append_inj h (by rw [block_length]; rfl)
  simp only [block_succ, block_zero, wordBytes, List.cons_append, List.nil_append, List.cons.injEq] at hhead
  obtain ⟨h₀, h₁, h₂, -⟩ := hhead
  refine ⟨?_, h₂, wordsAt_of_block frame (p + 3) values hvalues⟩
  rw [wordAt, h₀, h₁, joinBytes_split]

theorem count_toNat (values : List U16) (hlen : values.length ≤ 123) :
    (BitVec.ofNat 16 values.length).toNat = values.length := by
  rw [BitVec.toNat_ofNat, Nat.mod_eq_of_lt (by omega)]

theorem valueBytes_length (values : List U16) : (valueBytes values).length = 3 + 2 * values.length := by
  rw [valueBytes, List.length_append, List.length_cons, flatMap_wordBytes_length]
  show 2 + (2 * values.length + 1) = 3 + 2 * values.length
  omega

theorem writeMultiple_answer (frame : Nat → U8) (banks : Banks) (address : U16) (values : List U16)
    (hlen : values.length ≤ 123) (hframe : block frame 0 (6 + 2 * values.length) =
      (Request.writeMultiple address values).pdu) :
    answer 16#8 (eMBFuncWriteMultipleHoldingRegister frame (6 + 2 * values.length) banks) =
      respond (.writeMultiple address values) banks := by
  rw [show 6 + 2 * values.length = 3 + (3 + 2 * values.length) by omega, block_add, Request.pdu,
    show (Request.writeMultiple address values).data = wordBytes address ++ valueBytes values from rfl,
    ← List.cons_append] at hframe
  obtain ⟨hhead, hvalues⟩ := List.append_inj hframe (by rw [block_length]; rfl)
  obtain ⟨hcount, hbytes, hwords⟩ := valueBytes_cells frame 3 values hvalues
  have hcells := hhead
  simp only [block_succ, block_zero, Request.code, wordBytes, List.cons.injEq] at hcells
  obtain ⟨-, h₁, h₂, -⟩ := hcells
  have haddress : wordAt frame 1 = address := by rw [wordAt, h₁, h₂, joinBytes_split]
  have hreply : block frame 0 5 = 16#8 :: (wordBytes address ++ wordBytes (BitVec.ofNat 16 values.length)) := by
    rw [show (5 : Nat) = 3 + 2 from rfl, block_add, hhead, ← hcount]
    simp [block_succ, wordBytes, wordAt, Request.code]
  rw [eMBFuncWriteMultipleHoldingRegister, if_pos (by omega), hcount, haddress, respond]
  simp only [count_toNat values hlen, hbytes, and_true]
  by_cases hin : 1 ≤ values.length ∧ values.length ≤ 120
  · rw [if_pos hin, if_pos hin, eMBRegHoldingCBWrite_stored frame 6 address _ _ values (count_toNat values hlen) hwords]
    cases stored banks.usSRegHoldBuf address values with
    | some regs => exact congrArg (·, _) hreply
    | none => rfl
  · rw [if_neg hin, if_neg hin]
    rfl

theorem readWrite_answer (frame : Nat → U8) (banks : Banks) (readAddress readCount writeAddress : U16)
    (values : List U16) (hlen : values.length ≤ 121) (hframe : block frame 0 (10 + 2 * values.length) =
      (Request.readWrite readAddress readCount writeAddress values).pdu) :
    answer 23#8 (eMBFuncReadWriteMultipleHoldingRegister frame (10 + 2 * values.length) banks) =
      respond (.readWrite readAddress readCount writeAddress values) banks := by
  rw [show 10 + 2 * values.length = 7 + (3 + 2 * values.length) by omega, block_add, Request.pdu,
    show (Request.readWrite readAddress readCount writeAddress values).data =
      wordBytes readAddress ++ wordBytes readCount ++ wordBytes writeAddress ++ valueBytes values from rfl,
    ← List.cons_append] at hframe
  obtain ⟨hhead, hvalues⟩ := List.append_inj hframe (by rw [block_length]; rfl)
  obtain ⟨hcount, hbytes, hwords⟩ := valueBytes_cells frame 7 values hvalues
  simp only [block_succ, block_zero, Request.code, wordBytes, List.cons_append, List.nil_append,
    List.cons.injEq] at hhead
  obtain ⟨-, h₁, h₂, h₃, h₄, h₅, h₆, -⟩ := hhead
  have hread : wordAt frame 1 = readAddress := by rw [wordAt, h₁, h₂, joinBytes_split]
  have hreadCount : wordAt frame 3 = readCount := by rw [wordAt, h₃, h₄, joinBytes_split]
  have hwrite : wordAt frame 5 = writeAddress := by rw [wordAt, h₅, h₆, joinBytes_split]
  have hbyteCount : 2 * values.length = (frame 9).toNat := by
    rw [hbytes, BitVec.toNat_ofNat, Nat.mod_eq_of_lt (by omega)]
  have hcountNat := count_toNat values (by omega)
  rw [eMBFuncReadWriteMultipleHoldingRegister, if_pos (by omega), hcount, hread, hreadCount, hwrite, respond]
  simp only [hcountNat, hbyteCount, and_true]
  by_cases hin : (1 ≤ readCount.toNat ∧ readCount.toNat ≤ 125) ∧ 1 ≤ values.length ∧ values.length ≤ 121
  · rw [if_pos hin, if_pos hin, eMBRegHoldingCBWrite_stored frame 10 writeAddress _ _ values hcountNat hwords]
    cases stored banks.usSRegHoldBuf writeAddress values with
    | none => rfl
    | some regs =>
      simp only [eMBRegHoldingCBRead_eq]
      rw [respondRead, if_pos hin.1]
      by_cases hfit : readAddress.toNat + readCount.toNat ≤ sRegHoldingNregs
      · rw [if_pos hfit, if_pos hfit, ← block_reading 23#8 frame regs]
        rfl
      · rw [if_neg hfit, if_neg hfit]
        rfl
  · rw [if_neg hin, if_neg hin]
    rfl

/-- The reading functions on bits answer as they should. -/
theorem readBits_answer (code : U8) (size : Nat) (bits frame : Nat → U8) (banks : Banks) :
    answer code (readFunction code 0x07CF bitBytes (readBitsCB bits size) frame 5 banks) =
      (respondBits code bits size (wordAt frame 1) (wordAt frame 3), banks) := by
  rw [readFunction, if_pos rfl, respondBits]
  by_cases hcount : 1 ≤ (wordAt frame 3).toNat ∧ (wordAt frame 3).toNat ≤ 0x07CF
  · rw [if_pos hcount, if_pos hcount]
    simp only [readBitsCB_eq]
    by_cases hfit : (wordAt frame 1).toNat + (wordAt frame 3).toNat ≤ size
    · rw [if_pos hfit, if_pos hfit, pack_block, bitBytes_eq, update_pair]
      refine congrArg (·, banks) ?_
      generalize (wordAt frame 3).toNat = n
      have hfront : octets n ≤ n / 8 + 1 := by
        rw [octets]
        omega
      show block (place _ 2 _) 0 (2 + octets n) = _
      rw [block_add, block_place_disjoint _ _ _ _ _ (Or.inl (by omega)), Nat.zero_add,
        block_place_front _ _ _ _ _ _ hfront]
      exact congrArg (· ++ _) (block_place frame 0 [code, _])
    · rw [if_neg hfit, if_neg hfit, answer]
      rfl
  · rw [if_neg hcount, if_neg hcount, answer]
    rfl

/-- The writing callback stores the coils of the request, or refuses them as a whole. -/
theorem eMBRegCoilsCBWrite_stored (buffer : Nat → U8) (p : Nat) (address count : U16) (coils : Nat → U8)
    (values : List Bool) (hcount : count.toNat = values.length)
    (hvalues : block buffer p (octets values.length) = pack values) :
    eMBRegCoilsCBWrite buffer p (address + 1#16) count coils =
      match storedBits coils address values with
      | some coils' => (.noErr, coils')
      | none => (.noReg, coils) := by
  rw [eMBRegCoilsCBWrite_eq, hcount, spilled_of_pack coils buffer p _ values hvalues, storedBits]
  by_cases hfit : address.toNat + values.length ≤ sCoilNcoils
  · rw [if_pos hfit, if_pos hfit]
  · rw [if_neg hfit, if_neg hfit]

theorem writeCoil_answer (frame : Nat → U8) (banks : Banks) (address : U16) (value : Bool)
    (hframe : block frame 0 5 = (Request.writeCoil address value).pdu) :
    answer 5#8 (eMBFuncWriteCoil frame 5 banks) = respond (.writeCoil address value) banks := by
  have hcells := hframe
  simp only [block_succ, block_zero, Request.pdu, Request.data, Request.code, wordBytes, List.cons_append,
    List.nil_append, List.cons.injEq] at hcells
  obtain ⟨-, h₁, h₂, h₃, h₄, -⟩ := hcells
  have haddress : wordAt frame 1 = address := by rw [wordAt, h₁, h₂, joinBytes_split]
  have hvalid : frame 4 = 0x00#8 ∧ (frame 3 = 0xFF#8 ∨ frame 3 = 0x00#8) := by
    refine ⟨h₄, ?_⟩
    rw [h₃]
    cases value <;> simp
  have hvalue : (if frame 3 = 0xFF#8 then 1#8 else 0#8) = if value then 1#8 else 0#8 := by
    rw [h₃]
    cases value <;> rfl
  have hpacked : block (fun k => if k = 0 then (if value then 1#8 else 0#8) else 0#8) 0 (octets [value].length) =
      pack [value] := by
    cases value <;> decide
  rw [eMBFuncWriteCoil, if_pos rfl, if_pos hvalid, haddress, respond]
  dsimp only
  rw [hvalue, eMBRegCoilsCBWrite_stored _ 0 address 1#16 banks.ucSCoilBuf [value] rfl hpacked]
  cases storedBits banks.ucSCoilBuf address [value] with
  | some coils => exact congrArg (·, _) hframe
  | none => rfl

theorem writeCoils_answer (frame : Nat → U8) (banks : Banks) (address : U16) (values : List Bool)
    (hlen : values.length ≤ 1976) (hframe : block frame 0 (6 + octets values.length) =
      (Request.writeCoils address values).pdu) :
    answer 15#8 (eMBFuncWriteMultipleCoils frame (6 + octets values.length) banks) =
      respond (.writeCoils address values) banks := by
  have hpdu : (Request.writeCoils address values).pdu =
      15#8 :: (wordBytes address ++ wordBytes (BitVec.ofNat 16 values.length)) ++
        (BitVec.ofNat 8 (octets values.length) :: pack values) := by
    rw [Request.pdu, Request.data, coilBytes, ← List.append_assoc, ← List.cons_append]
    rfl
  rw [show 6 + octets values.length = 5 + (octets values.length + 1) by omega, block_add, hpdu] at hframe
  obtain ⟨hreply, hrest⟩ := List.append_inj hframe (by rw [block_length]; rfl)
  rw [block_succ] at hrest
  injection hrest with hbytes hvalues
  obtain ⟨haddress, hcount⟩ := wordAt_pair frame 15#8 address _ hreply
  have hcountNat : (BitVec.ofNat 16 values.length).toNat = values.length := by
    rw [BitVec.toNat_ofNat, Nat.mod_eq_of_lt (by omega)]
  rw [eMBFuncWriteMultipleCoils, respond, haddress, hcount]
  by_cases hpos : 5 < 6 + octets values.length
  · rw [if_pos hpos]
    simp only [hcountNat, bitBytes_eq, ← hbytes, and_true]
    by_cases hin : 1 ≤ values.length ∧ values.length ≤ 0x07B0
    · rw [if_pos hin, if_pos hin, eMBRegCoilsCBWrite_stored frame 6 address _ _ values hcountNat hvalues]
      cases storedBits banks.ucSCoilBuf address values with
      | some coils => exact congrArg (·, _) hreply
      | none => rfl
    · rw [if_neg hin, if_neg hin]
      rfl
  · omega

theorem reportSlaveID_answer (frame : Nat → U8) (usLen : Nat) (banks : Banks) (hcode : frame 0 = 17#8) :
    answer 17#8 (eMBFuncReportSlaveID frame usLen banks) = respond .reportSlaveID banks := by
  have hblock : block (place frame 1 banks.ucMBSlaveID) 0 (1 + banks.ucMBSlaveID.length) = 17#8 :: banks.ucMBSlaveID := by
    rw [Nat.add_comm, block_succ, place_outside _ _ _ _ (Or.inl (by omega)), hcode, block_place]
  exact congrArg (·, banks) hblock

end Handlers

section Service

/-- How long a request is. -/
def Request.size : Request → Nat
  | .writeMultiple _ values => 6 + 2 * values.length
  | .readWrite _ _ _ values => 10 + 2 * values.length
  | .writeCoils _ values => 6 + octets values.length
  | .reportSlaveID => 1
  | _ => 5

theorem pdu_length (r : Request) : r.pdu.length = r.size := by
  cases r with
  | readHolding address count => rfl
  | readInput address count => rfl
  | writeSingle address value => rfl
  | writeMultiple address values =>
    rw [Request.pdu, Request.data, List.length_cons, List.length_append, valueBytes_length]
    show 2 + (3 + 2 * values.length) + 1 = 6 + 2 * values.length
    omega
  | readWrite readAddress readCount writeAddress values =>
    rw [Request.pdu, Request.data, List.length_cons, List.length_append, valueBytes_length]
    show 6 + (3 + 2 * values.length) + 1 = 10 + 2 * values.length
    omega
  | readCoils address count => rfl
  | readDiscretes address count => rfl
  | writeCoil address value => rfl
  | writeCoils address values =>
    rw [Request.pdu, Request.data, coilBytes, List.length_cons, List.length_append, List.length_append,
      List.length_cons, pack_length]
    show 2 + (2 + (octets values.length + 1)) + 1 = 6 + octets values.length
    omega
  | reportSlaveID => rfl

/-- The handlers give every request its meaning, whatever else is left in the buffer. -/
theorem answered_request (r : Request) (frame : Nat → U8) (banks : Banks) (hlen : r.pdu.length ≤ 253)
    (hframe : block frame 0 r.pdu.length = r.pdu) : answered frame r.pdu.length banks = respond r banks := by
  have hcode : frame 0 = r.code := by
    have hfirst := congrArg (·[0]?) hframe
    rw [getElem?_block frame 0 _ 0 (by rw [Request.pdu, List.length_cons]; omega)] at hfirst
    simpa [Request.pdu] using hfirst
  rw [pdu_length] at hlen hframe ⊢
  rw [answered_eq, hcode]
  cases r with
  | readHolding address count =>
    obtain ⟨haddress, hcount⟩ := wordAt_pair frame 3#8 address count hframe
    rw [dispatch_of_mem frame _ banks 3#8 eMBFuncReadHoldingRegister (by simp [xFuncHandlers]) hcode,
      eMBFuncReadHoldingRegister, respond, ← haddress, ← hcount]
    exact readFunction_answer 3#8 125 sRegHoldingNregs banks.usSRegHoldBuf frame banks _ fun _ _ _ _ =>
      eMBRegHoldingCBRead_eq _ _ _ _ _
  | readInput address count =>
    obtain ⟨haddress, hcount⟩ := wordAt_pair frame 4#8 address count hframe
    rw [dispatch_of_mem frame _ banks 4#8 eMBFuncReadInputRegister (by simp [xFuncHandlers]) hcode,
      eMBFuncReadInputRegister, respond, ← haddress, ← hcount]
    exact readFunction_answer 4#8 124 sRegInputNregs banks.usSRegInBuf frame banks _ fun _ _ _ _ =>
      eMBRegInputCB_eq _ _ _ _ _
  | writeSingle address value =>
    rw [dispatch_of_mem frame _ banks 6#8 eMBFuncWriteHoldingRegister (by simp [xFuncHandlers]) hcode]
    exact writeHolding_answer frame banks address value hframe
  | writeMultiple address values =>
    rw [dispatch_of_mem frame _ banks 16#8 eMBFuncWriteMultipleHoldingRegister (by simp [xFuncHandlers]) hcode]
    rw [Request.size] at hlen
    exact writeMultiple_answer frame banks address values (by omega) hframe
  | readWrite readAddress readCount writeAddress values =>
    rw [dispatch_of_mem frame _ banks 23#8 eMBFuncReadWriteMultipleHoldingRegister (by simp [xFuncHandlers]) hcode]
    rw [Request.size] at hlen
    exact readWrite_answer frame banks readAddress readCount writeAddress values (by omega) hframe
  | readCoils address count =>
    obtain ⟨haddress, hcount⟩ := wordAt_pair frame 1#8 address count hframe
    rw [dispatch_of_mem frame _ banks 1#8 eMBFuncReadCoils (by simp [xFuncHandlers]) hcode, eMBFuncReadCoils, respond,
      ← haddress, ← hcount]
    exact readBits_answer 1#8 sCoilNcoils banks.ucSCoilBuf frame banks
  | readDiscretes address count =>
    obtain ⟨haddress, hcount⟩ := wordAt_pair frame 2#8 address count hframe
    rw [dispatch_of_mem frame _ banks 2#8 eMBFuncReadDiscreteInputs (by simp [xFuncHandlers]) hcode,
      eMBFuncReadDiscreteInputs, respond, ← haddress, ← hcount]
    exact readBits_answer 2#8 sDiscreteInputNdiscretes banks.ucSDiscInBuf frame banks
  | writeCoil address value =>
    rw [dispatch_of_mem frame _ banks 5#8 eMBFuncWriteCoil (by simp [xFuncHandlers]) hcode]
    exact writeCoil_answer frame banks address value hframe
  | writeCoils address values =>
    rw [dispatch_of_mem frame _ banks 15#8 eMBFuncWriteMultipleCoils (by simp [xFuncHandlers]) hcode]
    rw [Request.size, octets] at hlen
    exact writeCoils_answer frame banks address values (by omega) hframe
  | reportSlaveID =>
    rw [dispatch_of_mem frame _ banks 17#8 eMBFuncReportSlaveID (by simp [xFuncHandlers]) hcode]
    exact reportSlaveID_answer frame 1 banks hcode

end Service

end DataReceiveRelay.ModbusService
