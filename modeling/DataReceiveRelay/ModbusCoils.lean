import DataReceiveRelay.ModbusFunctions
import DataReceiveRelay.PackedBits

/-!
# Coils and discrete inputs

The callbacks for single bits move them through words of sixteen. Reading gives
the bits asked for and zeros to the end of the last byte. Writing does not mask
the value: what stands behind the last coil of a request is added to the coils
that follow, and behind the last of the 64 coils to whatever follows them.
-/

namespace DataReceiveRelay.ModbusCoils

open Words Blocks PackedBits ModbusCrc Registers ModbusFunctions

section Words

theorem getLsbD_lowByte (v : U16) (i : Nat) (h : i < 8) : (lowByte v).getLsbD i = v.getLsbD i := by
  have hmask : ∀ i : Fin 8, (0xFF#16).getLsbD i.val = true := by decide
  rw [lowByte, BitVec.getLsbD_setWidth, BitVec.getLsbD_and, hmask ⟨i, h⟩]
  simp [h]

theorem getLsbD_highByte (v : U16) (i : Nat) (h : i < 8) : (highByte v).getLsbD i = v.getLsbD (8 + i) := by
  rw [highByte, BitVec.getLsbD_setWidth, BitVec.getLsbD_ushiftRight]
  simp [h]

theorem getLsbD_bitMask (n : Nat) (hn : n ≤ 8) (i : Nat) (hi : i < 16) : (bitMask n).getLsbD i = decide (i < n) := by
  have hall : ∀ n : Fin 9, ∀ i : Fin 16, (bitMask n.val).getLsbD i.val = decide (i.val < n.val) := by decide
  exact hall ⟨n, by omega⟩ ⟨i, hi⟩

theorem getLsbD_wordBuf (memory : Nat → U8) (base off : Nat) (hoff : off < 8) (i : Nat) (hi : i < 16) :
    (wordBuf memory base off).getLsbD i = bitAt memory (8 * base + i) := by
  have hbyte : base + off / 8 = base := by omega
  rw [wordBuf, hbyte, BitVec.getLsbD_or, BitVec.getLsbD_shiftLeft, BitVec.getLsbD_setWidth, BitVec.getLsbD_setWidth]
  by_cases h : i < 8
  · rw [bitAt_cell memory base i h]
    simp [h, hi]
  · have hsplit : 8 * base + i = 8 * (base + 1) + (i - 8) := by omega
    rw [hsplit, bitAt_cell memory (base + 1) (i - 8) (by omega), BitVec.getLsbD_of_ge (memory base) i (by omega)]
    have hrest : i - 8 < 16 := by omega
    simp [h, hi, hrest]

/-- Eight bits from any place. -/
theorem getLsbD_getBits (memory : Nat → U8) (base off : Nat) (hoff : off < 8) (i : Nat) (hi : i < 8) :
    (xMBUtilGetBits memory base off 8).getLsbD i = bitAt memory (8 * base + off + i) := by
  have hpre : off % 8 = off := Nat.mod_eq_of_lt hoff
  rw [xMBUtilGetBits, BitVec.getLsbD_setWidth, BitVec.getLsbD_and, BitVec.getLsbD_ushiftRight, hpre,
    getLsbD_wordBuf memory base off hoff (off + i) (by omega), getLsbD_bitMask 8 (by omega) i (by omega)]
  simp [hi, Nat.add_assoc]

/-- The word that `xMBUtilSetBits` writes back. -/
def setWord (memory : Nat → U8) (base off n : Nat) (v : U8) : U16 :=
  (wordBuf memory base off &&& ~~~(bitMask n <<< (off % 8))) ||| (v.setWidth 16 <<< (off % 8))

theorem getLsbD_setWord (memory : Nat → U8) (base off n : Nat) (v : U8) (hoff : off < 8) (hn : n ≤ 8) (i : Nat)
    (hi : i < 16) :
    (setWord memory base off n v).getLsbD i =
      ((bitAt memory (8 * base + i) && !decide (off ≤ i ∧ i < off + n)) ||
        (decide (off ≤ i ∧ i < off + 8) && v.getLsbD (i - off))) := by
  have hpre : off % 8 = off := Nat.mod_eq_of_lt hoff
  rw [setWord, hpre, BitVec.getLsbD_or, BitVec.getLsbD_and, BitVec.getLsbD_not, BitVec.getLsbD_shiftLeft,
    BitVec.getLsbD_shiftLeft, BitVec.getLsbD_setWidth, getLsbD_wordBuf memory base off hoff i hi]
  by_cases hlow : i < off
  · have hout : ¬ off ≤ i := by omega
    simp [hi, hlow, hout]
  · have hin : off ≤ i := by omega
    have hrest : i - off < 16 := by omega
    rw [getLsbD_bitMask n hn (i - off) hrest]
    by_cases hvalue : i < off + 8
    · have hbits : i - off < n ↔ i < off + n := by omega
      simp [hi, hlow, hin, hrest, hvalue, hbits]
    · have hbits : i - off < n ↔ i < off + n := by omega
      rw [BitVec.getLsbD_of_ge v (i - off) (by omega)]
      simp [hi, hlow, hin, hrest, hbits]

/-- The bits of the value replace `n` bits and are added to those behind them. -/
theorem bitAt_setBits (memory : Nat → U8) (base off n : Nat) (v : U8) (hoff : off < 8) (hn : n ≤ 8) (j : Nat) :
    bitAt (xMBUtilSetBits memory base off n v) j =
      ((bitAt memory j && !decide (8 * base + off ≤ j ∧ j < 8 * base + off + n)) ||
        (decide (8 * base + off ≤ j ∧ j < 8 * base + off + 8) && v.getLsbD (j - (8 * base + off)))) := by
  have hbyte : base + off / 8 = base := by omega
  have hset : xMBUtilSetBits memory base off n v =
      Function.update (Function.update memory base (lowByte (setWord memory base off n v))) (base + 1)
        (highByte (setWord memory base off n v)) := by
    rw [xMBUtilSetBits, hbyte]
    rfl
  rw [hset]
  by_cases hin : 8 * base ≤ j ∧ j < 8 * base + 16
  · have hword : bitAt (Function.update (Function.update memory base (lowByte (setWord memory base off n v))) (base + 1)
        (highByte (setWord memory base off n v))) j = (setWord memory base off n v).getLsbD (j - 8 * base) := by
      by_cases hlow : j < 8 * base + 8
      · have hj : j = 8 * base + (j - 8 * base) := by omega
        rw [hj, bitAt_cell _ base _ (by omega), Function.update_of_ne (by omega), Function.update_self,
          getLsbD_lowByte _ _ (by omega), Nat.add_sub_cancel_left]
      · have hj : j = 8 * (base + 1) + (j - 8 * base - 8) := by omega
        have hback : 8 + (j - 8 * base - 8) = j - 8 * base := by omega
        rw [hj, bitAt_cell _ (base + 1) _ (by omega), Function.update_self, getLsbD_highByte _ _ (by omega), ← hj, hback]
    have hj : 8 * base + (j - 8 * base) = j := by omega
    have hsub : j - 8 * base - off = j - (8 * base + off) := by omega
    have hbits : off ≤ j - 8 * base ∧ j - 8 * base < off + n ↔ 8 * base + off ≤ j ∧ j < 8 * base + off + n := by omega
    have hvalue : off ≤ j - 8 * base ∧ j - 8 * base < off + 8 ↔ 8 * base + off ≤ j ∧ j < 8 * base + off + 8 := by omega
    rw [hword, getLsbD_setWord memory base off n v hoff hn _ (by omega), hj, hsub]
    simp only [hbits, hvalue]
  · have hcell : j / 8 ≠ base := by omega
    have hnext : j / 8 ≠ base + 1 := by omega
    have hbits : ¬ (8 * base + off ≤ j ∧ j < 8 * base + off + n) := by omega
    have hvalue : ¬ (8 * base + off ≤ j ∧ j < 8 * base + off + 8) := by omega
    rw [bitAt, Function.update_of_ne hnext, Function.update_of_ne hcell, ← bitAt]
    simp [hbits, hvalue]

end Words

section Reading

theorem getBits_eq (bits : Nat → U8) (base off : Nat) (hoff : off < 8) :
    xMBUtilGetBits bits base off 8 = ofBits (fun j => bitAt bits (off + j)) base := by
  apply BitVec.eq_of_getLsbD_eq
  intro i hi
  rw [getLsbD_getBits bits base off hoff i hi, getLsbD_ofBits _ _ _ hi, Nat.add_left_comm, Nat.add_assoc]

/-- The reading loop copies bits. -/
theorem readBits_eq (bits : Nat → U8) (iRegBitIndex : Nat) (hoff : iRegBitIndex < 8) (n iRegIndex p : Nat)
    (buffer : Nat → U8) :
    readBits bits iRegBitIndex n iRegIndex p buffer =
      place buffer p (block (ofBits fun j => bitAt bits (iRegBitIndex + j)) iRegIndex n) := by
  induction n generalizing iRegIndex p buffer with
  | zero => rw [readBits, block_zero, place_nil]
  | succ n ih => rw [readBits, ih, getBits_eq bits iRegIndex iRegBitIndex hoff, block_succ, place_cons]

/-- The octets from `base` on are those of the bits moved down. -/
theorem block_ofBits (bits : Nat → Bool) (base n : Nat) :
    block (ofBits bits) base n = block (ofBits fun j => bits (8 * base + j)) 0 n := by
  have hmoved : (fun k => ofBits bits (k + base)) = ofBits fun j => bits (8 * base + j) := by
    funext k
    apply BitVec.eq_of_getLsbD_eq
    intro i hi
    rw [getLsbD_ofBits _ _ _ hi, getLsbD_ofBits _ _ _ hi]
    congr 1
    omega
  rw [← hmoved, block_comp, Nat.zero_add]

/-- Shifting up and down again clears the high bits. -/
theorem clear_high (v : U8) (k : Nat) (hk : k < 8) (i : Nat) :
    ((v <<< (8 - k)) >>> (8 - k)).getLsbD i = (decide (i < k) && v.getLsbD i) := by
  rw [BitVec.getLsbD_ushiftRight, BitVec.getLsbD_shiftLeft]
  by_cases h : i < k
  · have hin : 8 - k + i < 8 := by omega
    simp [h, hin]
  · have hout : ¬ 8 - k + i < 8 := by omega
    simp [h, hout]

/-- The bits asked for, and zeros up to the end of the byte behind them. -/
def padded (bits : Nat → U8) (address count : Nat) : Nat → U8 :=
  ofBits fun j => decide (j < count) && bitAt bits (address + j)

theorem bitBytes_eq (count : Nat) : bitBytes count = octets count := by
  rw [bitBytes, octets]
  split <;> omega

theorem pack_block (bits : Nat → U8) (address count : Nat) :
    pack (block (bitAt bits) address count) = block (padded bits address count) 0 (octets count) := by
  have hbits : (fun j => (block (bitAt bits) address count).getD j false) =
      fun j => decide (j < count) && bitAt bits (address + j) := by
    funext j
    rw [List.getD_eq_getElem?_getD]
    by_cases h : j < count
    · rw [getElem?_block _ _ _ _ h]
      simp [h]
    · rw [List.getElem?_eq_none (by rw [block_length]; omega)]
      simp [h]
  rw [pack, hbits, block_length, padded]

theorem readBitsCB_eq (bits : Nat → U8) (size : Nat) (buffer : Nat → U8) (p : Nat) (address count : U16) :
    readBitsCB bits size buffer p (address + 1#16) count =
      if address.toNat + count.toNat ≤ size then
        (.noErr, place buffer p (block (padded bits address.toNat count.toNat) 0 (count.toNat / 8 + 1)))
      else (.noReg, buffer) := by
  rw [readBitsCB, inRange_succ, BitVec.add_sub_cancel]
  simp only [decide_eq_true_eq]
  split
  case isFalse => rfl
  case isTrue =>
    generalize address.toNat = a
    generalize count.toNat = n
    rw [readBits_eq bits _ (Nat.mod_lt a (by decide)), block_ofBits]
    have hbits : (fun j => bitAt bits (a % 8 + (8 * (a / 8) + j))) = fun j => bitAt bits (a + j) := by
      funext j
      congr 1
      omega
    rw [hbits, block_add, block_add]
    -- The full bytes are the same in both, the last one is cleared behind the bits asked for.
    have hfull : block (ofBits fun j => bitAt bits (a + j)) 0 (n / 8) = block (padded bits a n) 0 (n / 8) := by
      apply block_congr
      intro k _ hk
      apply BitVec.eq_of_getLsbD_eq
      intro i hi
      have hin : 8 * k + i < n := by omega
      rw [padded, getLsbD_ofBits _ _ _ hi, getLsbD_ofBits _ _ _ hi]
      simp [hin]
    have hlast : (ofBits (fun j => bitAt bits (a + j)) (n / 8) <<< (8 - n % 8)) >>> (8 - n % 8) =
        padded bits a n (n / 8) := by
      apply BitVec.eq_of_getLsbD_eq
      intro i hi
      have hin : 8 * (n / 8) + i < n ↔ i < n % 8 := by omega
      rw [clear_high _ _ (Nat.mod_lt n (by decide)), padded, getLsbD_ofBits _ _ _ hi, getLsbD_ofBits _ _ _ hi]
      simp only [hin]
    have hone : ∀ memory : Nat → U8, block memory (0 + n / 8) 1 = [memory (n / 8)] := by
      intro memory
      rw [block_succ, block_zero, Nat.zero_add]
    have hindex : p + (n / 8 + 1) - 1 = p + n / 8 := by omega
    rw [hone, hone, place_append, place_append, block_length, block_length, place_cons, place_cons, place_nil, place_nil,
      hindex, hfull, Function.update_self, Function.update_idem, hlast]

end Reading

section Writing

/-- A whole byte of the request. -/
theorem bitAt_setBits_full (memory buffer : Nat → U8) (base off p : Nat) (hoff : off < 8) :
    bitAt (xMBUtilSetBits memory base off 8 (buffer p)) =
      place (bitAt memory) (8 * base + off) (block (bitAt buffer) (8 * p) 8) := by
  funext j
  rw [bitAt_setBits memory base off 8 (buffer p) hoff (Nat.le_refl 8), place_block]
  by_cases h : 8 * base + off ≤ j ∧ j < 8 * base + off + 8
  · rw [if_pos h, bitAt_cell buffer p _ (by omega)]
    simp [h]
  · rw [if_neg h]
    simp [h]

/-- The writing loop copies bits. -/
theorem bitAt_writeBits (buffer : Nat → U8) (iRegBitIndex : Nat) (hoff : iRegBitIndex < 8) (n iRegIndex p : Nat)
    (coils : Nat → U8) :
    bitAt (writeBits buffer iRegBitIndex n iRegIndex p coils) =
      place (bitAt coils) (8 * iRegIndex + iRegBitIndex) (block (bitAt buffer) (8 * p) (8 * n)) := by
  induction n generalizing iRegIndex p coils with
  | zero => rw [writeBits, Nat.mul_zero, block_zero, place_nil]
  | succ n ih =>
    have hnext : 8 * (iRegIndex + 1) + iRegBitIndex = 8 * iRegIndex + iRegBitIndex + 8 := by omega
    rw [writeBits, ih, bitAt_setBits_full coils buffer iRegIndex iRegBitIndex p hoff, hnext, Nat.mul_succ 8 n,
      Nat.add_comm (8 * n) 8, block_add, place_append, block_length, Nat.mul_succ 8 p]

/-- The coils after a write: `n` from `a` on are replaced by bits of the request; the bits behind them, up to the end of
its last byte, are added to the coils that follow. -/
def spilled (coils buffer : Nat → U8) (p a n : Nat) : Nat → Bool := fun j =>
  if a ≤ j ∧ j < a + n then bitAt buffer (8 * p + (j - a))
  else bitAt coils j || (decide (a + n ≤ j ∧ j < a + 8 * octets n) && bitAt buffer (8 * p + (j - a)))

theorem eMBRegCoilsCBWrite_eq (buffer : Nat → U8) (p : Nat) (address count : U16) (coils : Nat → U8) :
    eMBRegCoilsCBWrite buffer p (address + 1#16) count coils =
      if address.toNat + count.toNat ≤ sCoilNcoils then
        (.noErr, ofBits (spilled coils buffer p address.toNat count.toNat))
      else (.noReg, coils) := by
  rw [eMBRegCoilsCBWrite, inRange_succ, BitVec.add_sub_cancel]
  simp only [decide_eq_true_eq]
  split
  case isFalse => rfl
  case isTrue =>
    generalize address.toNat = a
    generalize count.toNat = n
    have hoff : a % 8 < 8 := Nat.mod_lt a (by decide)
    have hstart : 8 * (a / 8) + a % 8 = a := Nat.div_add_mod a 8
    refine congrArg (ErrorCode.noErr, ·) (ext_bits _ _ ?_)
    rw [bitAt_ofBits]
    funext j
    by_cases hpartial : n % 8 = 0
    · have hnone : ¬ (a + n ≤ j ∧ j < a + 8 * octets n) := by
        rw [octets]
        omega
      have hall : 8 * (n / 8) = n := by omega
      rw [if_neg (not_not.mpr hpartial), bitAt_writeBits buffer _ hoff, hstart, hall, place_block, spilled]
      simp [hnone]
    · have hlast : 8 * (a / 8 + n / 8) + a % 8 = a + 8 * (n / 8) := by omega
      have hoctets : 8 * octets n = 8 * (n / 8) + 8 := by
        rw [octets]
        omega
      rw [if_pos hpartial, bitAt_setBits _ _ _ _ _ hoff (by omega), bitAt_writeBits buffer _ hoff, hstart, hlast,
        place_block, spilled, hoctets]
      by_cases hbits : a + 8 * (n / 8) ≤ j ∧ j < a + 8 * (n / 8) + 8
      · -- The last byte of the request.
        have hcell : bitAt buffer (8 * p + (j - a)) = (buffer (p + n / 8)).getLsbD (j - (a + 8 * (n / 8))) := by
          have hsplit : 8 * p + (j - a) = 8 * (p + n / 8) + (j - (a + 8 * (n / 8))) := by omega
          rw [hsplit, bitAt_cell _ _ _ (by omega)]
        have hfull : ¬ (a ≤ j ∧ j < a + 8 * (n / 8)) := by omega
        rw [if_neg hfull, hcell]
        by_cases hin : j < a + n
        · have hreplaced : a + 8 * (n / 8) ≤ j ∧ j < a + 8 * (n / 8) + n % 8 := by omega
          have hwhole : a ≤ j ∧ j < a + n := by omega
          simp [hbits, hreplaced, hwhole]
        · have hkept : ¬ j < a + 8 * (n / 8) + n % 8 := by omega
          have hwhole : ¬ (a ≤ j ∧ j < a + n) := by omega
          have hspill : a + n ≤ j ∧ j < a + (8 * (n / 8) + 8) := by omega
          simp [hbits, hkept, hwhole, hspill]
      · have hkept : ¬ (a + 8 * (n / 8) ≤ j ∧ j < a + 8 * (n / 8) + n % 8) := by omega
        have hnone : ¬ (a + n ≤ j ∧ j < a + (8 * (n / 8) + 8)) := by omega
        have hsame : (a ≤ j ∧ j < a + 8 * (n / 8)) ↔ (a ≤ j ∧ j < a + n) := by omega
        simp [hbits, hkept, hnone, hsame]

/-- The coils behind the last one of a request keep their values exactly if what fills its last byte sets none of them. -/
theorem spilled_behind (coils buffer : Nat → U8) (p a n : Nat) :
    (∀ j, j < a ∨ a + n ≤ j → spilled coils buffer p a n j = bitAt coils j) ↔
      ∀ i, n ≤ i → i < 8 * octets n → bitAt buffer (8 * p + i) = true → bitAt coils (a + i) = true := by
  constructor
  · intro h i hlo hhi hbit
    have hkept := h (a + i) (Or.inr (by omega))
    have hout : ¬ (a ≤ a + i ∧ a + i < a + n) := by omega
    have hspill : a + n ≤ a + i ∧ a + i < a + 8 * octets n := by omega
    rw [spilled, if_neg hout, Nat.add_sub_cancel_left, hbit] at hkept
    simpa [hspill] using hkept
  · intro h j hj
    have hout : ¬ (a ≤ j ∧ j < a + n) := by omega
    rw [spilled, if_neg hout]
    by_cases hspill : a + n ≤ j ∧ j < a + 8 * octets n
    · cases hbit : bitAt buffer (8 * p + (j - a)) with
      | false => simp
      | true =>
        have hset := h (j - a) (by omega) (by omega) hbit
        rw [Nat.add_sub_of_le (by omega)] at hset
        simp [hset]
    · simp [hspill]

/-- With zeros behind the last coil the write is the one that was asked for. -/
theorem spilled_of_pack (coils buffer : Nat → U8) (p a : Nat) (bits : List Bool)
    (h : block buffer p (octets bits.length) = pack bits) :
    spilled coils buffer p a bits.length = place (bitAt coils) a bits := by
  funext j
  have hoctets : bits.length ≤ 8 * octets bits.length := by
    rw [octets]
    omega
  by_cases hin : a ≤ j ∧ j < a + bits.length
  · have hk : j - a < bits.length := by omega
    rw [spilled, if_pos hin, bitAt_of_pack buffer p bits h _ (by omega), place, if_pos hin.1, List.getD_eq_getElem?_getD,
      List.getElem?_eq_getElem hk]
    rfl
  · rw [spilled, if_neg hin, place_outside _ _ _ _ (by omega)]
    by_cases hspill : a + bits.length ≤ j ∧ j < a + 8 * octets bits.length
    · rw [bitAt_of_pack buffer p bits h _ (by omega), List.getD_eq_default _ _ (by omega)]
      simp
    · simp [hspill]

/-- The coils after a write of several: the bits of the request in place of the coils asked for, and added behind them
where they fill its last byte. So the other coils, and the memory behind the last one, keep their values exactly if no
filling bit of the request is set where theirs is not. -/
theorem writeMultipleCoils_others_iff (frame : Nat → U8) (usLen : Nat) (banks : Banks) (hcode : frame 0 = 15#8)
    (hdone : (dispatch frame usLen banks).eException = .none) :
    (∀ j, j < (wordAt frame 1).toNat ∨ (wordAt frame 1).toNat + (wordAt frame 3).toNat ≤ j →
      bitAt (dispatch frame usLen banks).banks.ucSCoilBuf j = bitAt banks.ucSCoilBuf j) ↔
    ∀ i, (wordAt frame 3).toNat ≤ i → i < 8 * (frame 5).toNat → bitAt frame (8 * 6 + i) = true →
      bitAt banks.ucSCoilBuf ((wordAt frame 1).toNat + i) = true := by
  have hhandler : dispatch frame usLen banks = eMBFuncWriteMultipleCoils frame usLen banks := by
    simp [dispatch, xFuncHandlers, hcode]
  rw [hhandler] at hdone ⊢
  simp only [eMBFuncWriteMultipleCoils, eMBRegCoilsCBWrite_eq] at hdone ⊢
  by_cases hlen : 5 < usLen
  · rw [if_pos hlen] at hdone ⊢
    by_cases hcount : 1 ≤ (wordAt frame 3).toNat ∧ (wordAt frame 3).toNat ≤ 0x07B0 ∧
        BitVec.ofNat 8 (bitBytes (wordAt frame 3).toNat) = frame 5
    · rw [if_pos hcount] at hdone ⊢
      by_cases hfit : (wordAt frame 1).toNat + (wordAt frame 3).toNat ≤ sCoilNcoils
      · rw [if_pos hfit] at hdone ⊢
        dsimp only
        have hbytes : (frame 5).toNat = octets (wordAt frame 3).toNat := by
          rw [sCoilNcoils] at hfit
          rw [← hcount.2.2, bitBytes_eq, BitVec.toNat_ofNat, octets, Nat.mod_eq_of_lt (by omega)]
        rw [hbytes, bitAt_ofBits]
        exact spilled_behind banks.ucSCoilBuf frame 6 _ _
      · rw [if_neg hfit] at hdone
        cases hdone
    · rw [if_neg hcount] at hdone
      cases hdone
  · rw [if_neg hlen] at hdone
    cases hdone

/-- Seven coils from 57 on, with the eighth bit of their byte set. -/
def sevenCoils : Nat → U8 := place (fun _ => 0#8) 0 [15#8, 0#8, 57#8, 0#8, 7#8, 1#8, 0x80#8]

/-- The byte behind the coils changes. -/
theorem writeMultipleCoils_others_changed :
    ¬ ∀ j, j < 57 ∨ 57 + 7 ≤ j →
      bitAt (dispatch sevenCoils 7 blankBanks).banks.ucSCoilBuf j = bitAt blankBanks.ucSCoilBuf j := by
  intro h
  have haddress : (wordAt sevenCoils 1).toNat = 57 := by decide
  have hcount : (wordAt sevenCoils 3).toNat = 7 := by decide
  have hiff := writeMultipleCoils_others_iff sevenCoils 7 blankBanks (by decide) (by decide +kernel)
  rw [haddress, hcount] at hiff
  exact absurd (hiff.mp h 7 (by decide) (by decide) (by decide)) (by decide)

end Writing

section Kept

/-- The registers and inputs that no request changes. -/
structure Kept (banks banks' : Banks) : Prop where
  inputs : banks'.usSRegInBuf = banks.usSRegInBuf
  discretes : banks'.ucSDiscInBuf = banks.ucSDiscInBuf
  slaveID : banks'.ucMBSlaveID = banks.ucMBSlaveID
  holding : ∀ k, sRegHoldingNregs ≤ k → banks'.usSRegHoldBuf k = banks.usSRegHoldBuf k
  /-- One byte more than the coils have. -/
  coils : ∀ k, 9 ≤ k → banks'.ucSCoilBuf k = banks.ucSCoilBuf k

theorem Kept.refl (banks : Banks) : Kept banks banks :=
  ⟨rfl, rfl, rfl, fun _ _ => rfl, fun _ _ => rfl⟩

theorem Kept.trans {a b c : Banks} (h : Kept a b) (h' : Kept b c) : Kept a c where
  inputs := h'.inputs.trans h.inputs
  discretes := h'.discretes.trans h.discretes
  slaveID := h'.slaveID.trans h.slaveID
  holding k hk := (h'.holding k hk).trans (h.holding k hk)
  coils k hk := (h'.coils k hk).trans (h.coils k hk)

/-- A write ends within a byte of the last coil. -/
theorem eMBRegCoilsCBWrite_behind (buffer : Nat → U8) (p : Nat) (address count : U16) (coils : Nat → U8) (k : Nat)
    (hk : 9 ≤ k) : (eMBRegCoilsCBWrite buffer p (address + 1#16) count coils).2 k = coils k := by
  rw [eMBRegCoilsCBWrite_eq]
  split
  case isFalse => rfl
  case isTrue hfit =>
    rw [sCoilNcoils] at hfit
    apply BitVec.eq_of_getLsbD_eq
    intro i hi
    have hout : ¬ (address.toNat ≤ 8 * k + i ∧ 8 * k + i < address.toNat + count.toNat) := by omega
    have hnone : ¬ (address.toNat + count.toNat ≤ 8 * k + i ∧ 8 * k + i < address.toNat + 8 * octets count.toNat) := by
      rw [octets]
      omega
    rw [getLsbD_ofBits _ _ _ hi, spilled, if_neg hout, bitAt_cell _ _ _ hi]
    simp [hnone]

theorem kept_of_written (banks banks' : Banks) (h : Written banks banks') : Kept banks banks' := by
  cases h with
  | nothing => exact Kept.refl banks
  | registers frame p address count =>
    refine ⟨rfl, rfl, rfl, fun k hk => ?_, fun _ _ => rfl⟩
    dsimp only
    rw [eMBRegHoldingCBWrite_eq]
    split
    · exact place_outside _ _ _ _ (Or.inr (by rw [wordsAt_length]; omega))
    · rfl
  | coils buffer p address count =>
    exact ⟨rfl, rfl, rfl, fun _ _ => rfl, fun k hk => eMBRegCoilsCBWrite_behind buffer p address count _ k hk⟩

/-- Whatever a request holds, complete or not, it leaves these as they are. -/
theorem dispatch_kept (frame : Nat → U8) (usLen : Nat) (banks : Banks) :
    Kept banks (dispatch frame usLen banks).banks :=
  kept_of_written _ _ (dispatch_written frame usLen banks)

end Kept

end DataReceiveRelay.ModbusCoils
