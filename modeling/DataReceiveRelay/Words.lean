import Mathlib

/-!
# Fixed-width words

Unsigned words of 8, 16 and 32 bits, the split of a 32-bit word over two
16-bit cells (low cell first), and single-bit tests of a 16-bit cell. All
arithmetic is modulo the width, as in C on unsigned operands. Text is a list of
bytes; a C string is what stands before the first zero byte.
-/

namespace DataReceiveRelay.Words

abbrev U8 := BitVec 8
abbrev U16 := BitVec 16
abbrev U32 := BitVec 32

abbrev Bytes := List U8

def comma : U8 := 44#8
def lineFeed : U8 := 10#8

/-- The FatFs results the two loaders see. -/
def frOk : U8 := 0#8
def frNoFile : U8 := 4#8

/-- The C string at the start of a buffer. -/
def cString (str : Bytes) : Bytes := str.takeWhile (· != 0#8)

theorem cString_eq_self (str : Bytes) (h : 0#8 ∉ str) : cString str = str := by
  rw [cString, List.takeWhile_eq_self_iff]
  intro c hc
  rw [bne_iff_ne]
  rintro rfl
  exact h hc

/-- `lo + (hi << 16)`, evaluated in 32 bits. -/
def join (lo hi : U16) : U32 := lo.setWidth 32 + (hi.setWidth 32 <<< 16)

/-- `w & 0x0000FFFF`, stored in a 16-bit cell. -/
def low (w : U32) : U16 := (w &&& 0x0000FFFF#32).setWidth 16

/-- `(w & 0xFFFF0000) >> 16`, stored in a 16-bit cell. -/
def high (w : U32) : U16 := ((w &&& 0xFFFF0000#32) >>> 16).setWidth 16

theorem join_toNat (lo hi : U16) : (join lo hi).toNat = lo.toNat + 65536 * hi.toNat := by
  have := lo.isLt
  have := hi.isLt
  simp only [join, BitVec.toNat_add, BitVec.toNat_setWidth, BitVec.toNat_shiftLeft, Nat.shiftLeft_eq]
  omega

theorem low_toNat (w : U32) : (low w).toNat = w.toNat % 65536 := by
  have h := Nat.and_two_pow_sub_one_eq_mod w.toNat 16
  norm_num at h
  simp only [low, BitVec.toNat_setWidth, BitVec.toNat_and, BitVec.toNat_ofNat]
  norm_num [h]

theorem high_mask : ∀ i : Fin 16, (0xFFFF0000#32).getLsbD (16 + i.val) = true := by decide

theorem high_eq_shift (w : U32) : high w = (w >>> 16).setWidth 16 := by
  apply BitVec.eq_of_getLsbD_eq
  intro i hi
  have hm := high_mask ⟨i, hi⟩
  simp only [high, BitVec.getLsbD_setWidth, BitVec.getLsbD_ushiftRight, BitVec.getLsbD_and, hm,
    Bool.and_true]

theorem high_toNat (w : U32) : (high w).toNat = w.toNat / 65536 := by
  have := w.isLt
  simp only [high_eq_shift, BitVec.toNat_setWidth, BitVec.toNat_ushiftRight, Nat.shiftRight_eq_div_pow]
  omega

/-- Splitting a word and joining its halves loses nothing. -/
@[simp] theorem join_low_high (w : U32) : join (low w) (high w) = w := by
  apply BitVec.eq_of_toNat_eq
  rw [join_toNat, low_toNat, high_toNat]
  omega

@[simp] theorem low_join (lo hi : U16) : low (join lo hi) = lo := by
  apply BitVec.eq_of_toNat_eq
  have := lo.isLt
  rw [low_toNat, join_toNat]
  omega

@[simp] theorem high_join (lo hi : U16) : high (join lo hi) = hi := by
  apply BitVec.eq_of_toNat_eq
  have := lo.isLt
  rw [high_toNat, join_toNat]
  omega

/-- A joined word is zero only when both of its cells are. -/
theorem join_eq_zero_iff (lo hi : U16) : join lo hi = 0 ↔ lo = 0 ∧ hi = 0 := by
  constructor
  · intro h
    have hz := congrArg BitVec.toNat h
    rw [join_toNat] at hz
    constructor <;> apply BitVec.eq_of_toNat_eq <;> simp at hz ⊢ <;> omega
  · rintro ⟨rfl, rfl⟩
    rfl

/-- `r & (1 << k)` is non-zero. -/
def hasBit (r : U16) (k : Nat) : Bool := (r &&& (1#16 <<< k)) != 0

/-- `r & ~(1 << k)`. -/
def clearBit (r : U16) (k : Nat) : U16 := r &&& ~~~(1#16 <<< k)

/-- `r | (1 << k)`. -/
def setBit (r : U16) (k : Nat) : U16 := r ||| (1#16 <<< k)

theorem oneBit_getLsbD (k i : Nat) (hi : i < 16) : (1#16 <<< k).getLsbD i = decide (i = k) := by
  rw [BitVec.getLsbD_shiftLeft, BitVec.getLsbD_one, Bool.eq_iff_iff]
  simp only [hi, decide_true, Bool.true_and, Bool.and_eq_true, Bool.not_eq_true', decide_eq_true_eq,
    decide_eq_false_iff_not, show (0 < 16) = True by simp]
  omega

/-- The mask test reads exactly bit `k` of the cell. -/
theorem hasBit_eq (r : U16) (k : Nat) : hasBit r k = r.getLsbD k := by
  by_cases hk : k < 16
  · cases hr : r.getLsbD k with
    | true =>
      simp only [hasBit, bne_iff_ne, ne_eq]
      intro h
      have hb := congrArg (fun v : U16 => v.getLsbD k) h
      simp [BitVec.getLsbD_and, oneBit_getLsbD k k hk, hr] at hb
    | false =>
      have hz : r &&& (1#16 <<< k) = 0 := by
        apply BitVec.eq_of_getLsbD_eq
        intro i hi
        rw [BitVec.getLsbD_and, oneBit_getLsbD k i hi]
        by_cases h : i = k <;> simp [h, hr]
      simp [hasBit, hz]
  · have hz : (1#16 <<< k) = 0#16 := by
      apply BitVec.eq_of_getLsbD_eq
      intro i hi
      rw [oneBit_getLsbD k i hi]
      simp
      omega
    rw [hasBit, hz, BitVec.getLsbD_of_ge r k (by omega)]
    simp

@[simp] theorem hasBit_setBit (r : U16) (k : Nat) (hk : k < 16) : hasBit (setBit r k) k = true := by
  rw [hasBit_eq, setBit, BitVec.getLsbD_or, oneBit_getLsbD k k hk]
  simp

@[simp] theorem hasBit_clearBit (r : U16) (k : Nat) : hasBit (clearBit r k) k = false := by
  rw [hasBit_eq, clearBit]
  by_cases hk : k < 16
  · simp [BitVec.getLsbD_and, BitVec.getLsbD_not, oneBit_getLsbD k k hk]
  · exact BitVec.getLsbD_of_ge _ _ (by omega)

/-- Clearing one bit leaves every other bit test unchanged. -/
theorem hasBit_clearBit_of_ne (r : U16) (j k : Nat) (h : j ≠ k) :
    hasBit (clearBit r k) j = hasBit r j := by
  rw [hasBit_eq, hasBit_eq, clearBit]
  by_cases hj : j < 16
  · simp only [BitVec.getLsbD_and, BitVec.getLsbD_not, oneBit_getLsbD k j hj, hj, h, decide_true,
      decide_false, Bool.not_false, Bool.and_true]
  · rw [BitVec.getLsbD_of_ge _ _ (by omega), BitVec.getLsbD_of_ge _ _ (by omega)]

end DataReceiveRelay.Words
