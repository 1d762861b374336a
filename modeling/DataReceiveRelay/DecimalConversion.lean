import DataReceiveRelay.DeviceIdFile

/-!
# Printing and reading numbers

`IntToStr` divides by falling powers of ten, lets leading zeros overwrite each
other in the first cell, and leaves the terminator to the caller's zeroed buffer;
its divider is zero when the loop ends. `StrToInt` multiplies and adds modulo
2 ^ 32. On numerals below 2 ^ 32 the two are inverse to each other.
-/

namespace DataReceiveRelay.DecimalConversion

open Words Decimal DeviceIdFile

section Defined

/-- The loop of `IntToStr` with its operations checked: `none` at a division by zero or a store behind the buffer. -/
def intToStrChecked : Nat → Bytes → U32 → U32 → Nat → Nat → Option Bytes
  | 0, str, _, _, _, _ => some str
  | i + 1, str, intnum, divider, pos, status =>
    if divider = 0#32 ∨ str.length ≤ pos then none
    else
      let c : U8 := (intnum / divider + 48#32).setWidth 8
      let str := str.set pos c
      if c = 48#8 ∧ status = 0 then intToStrChecked i str (intnum % divider) (divider / 10#32) 0 status
      else intToStrChecked i str (intnum % divider) (divider / 10#32) (pos + 1) (status + 1)

/-- With `k` rounds to go the divider is the weight of the next digit, and there is room for the rest. -/
theorem intToStrChecked_eq (k : Nat) (str : Bytes) (intnum divider : U32) (pos status : Nat)
    (hd : k ≠ 0 → divider.toNat = 10 ^ (k - 1)) (hroom : pos + k ≤ str.length) :
    intToStrChecked k str intnum divider pos status = some (intToStrLoop k str intnum divider pos status) := by
  induction k generalizing str intnum divider pos status with
  | zero => rfl
  | succ k ih =>
    have hweight : divider.toNat = 10 ^ k := hd (by omega)
    have hne : divider ≠ 0#32 := by
      rintro rfl
      have hpos : 0 < 10 ^ k := by positivity
      rw [← hweight] at hpos
      exact absurd hpos (by decide)
    have hnext : k ≠ 0 → (divider / 10#32).toNat = 10 ^ (k - 1) := by
      intro hk
      obtain ⟨j, rfl⟩ : ∃ j, k = j + 1 := ⟨k - 1, by omega⟩
      rw [BitVec.toNat_udiv, hweight, pow_succ]
      simp
    rw [intToStrChecked, intToStrLoop, if_neg (not_or.mpr ⟨hne, by omega⟩)]
    dsimp only
    split
    · exact ih _ _ _ _ _ hnext (by rw [List.length_set]; omega)
    · exact ih _ _ _ _ _ hnext (by rw [List.length_set]; omega)

/-- On a buffer of ten bytes or more nothing undefined happens. -/
theorem intToStr_defined (str : Bytes) (intnum : U32) (h : 10 ≤ str.length) :
    intToStrChecked 10 str intnum 1000000000#32 0 0 = some (intToStr str intnum) :=
  intToStrChecked_eq 10 str intnum 1000000000#32 0 0 (fun _ => by decide) (by omega)

end Defined

section Numerals

/-- A decimal numeral as text: digits, and no leading zero unless it is the only digit. -/
def Numeral (s : Bytes) : Prop :=
  (∀ c ∈ s, 48 ≤ c.toNat ∧ c.toNat ≤ 57) ∧ (s = [48#8] ∨ ∃ c rest, s = c :: rest ∧ c ≠ 48#8)

/-- The number a text of digits denotes, without any bound. -/
def numeralValue (s : Bytes) : Nat := s.foldl (fun m c => 10 * m + (c.toNat - 48)) 0

/-- The digits of a text. -/
def digitsOf (s : Bytes) : List Nat := s.map fun c => c.toNat - 48

theorem value_digitsOf (s : Bytes) : value (digitsOf s) = numeralValue s := by
  rw [value, digitsOf, List.foldl_map, numeralValue]

theorem digitsOf_lt_ten (s : Bytes) (h : ∀ c ∈ s, 48 ≤ c.toNat ∧ c.toNat ≤ 57) : ∀ d ∈ digitsOf s, d < 10 := by
  intro d hd
  obtain ⟨c, hc, rfl⟩ := List.mem_map.mp hd
  have hdigit := h c hc
  omega

theorem map_ascii_digitsOf (s : Bytes) (h : ∀ c ∈ s, 48 ≤ c.toNat ∧ c.toNat ≤ 57) : (digitsOf s).map ascii = s := by
  have hsame : ∀ c ∈ s, (ascii ∘ fun c => c.toNat - 48) c = id c := by
    intro c hc
    have hdigit := h c hc
    apply BitVec.eq_of_toNat_eq
    rw [Function.comp_apply, ascii_toNat _ (by omega), id]
    omega
  rw [digitsOf, List.map_map, List.map_congr_left hsame, List.map_id]

theorem digitsOf_map_ascii (digits : List Nat) (h : ∀ d ∈ digits, d < 10) : digitsOf (digits.map ascii) = digits := by
  have hsame : ∀ d ∈ digits, ((fun c : U8 => c.toNat - 48) ∘ ascii) d = id d := by
    intro d hd
    rw [Function.comp_apply, ascii_toNat d (h d hd), id]
    omega
  rw [digitsOf, List.map_map, List.map_congr_left hsame, List.map_id]

theorem ascii_sub (c : U8) (h : 48 ≤ c.toNat ∧ c.toNat ≤ 57) : c.toNat - 48 = 0 ↔ c = 48#8 := by
  rw [← BitVec.toNat_inj]
  simp only [BitVec.toNat_ofNat]
  omega

/-- A text is a numeral exactly when its digits are canonical. -/
theorem numeral_iff (s : Bytes) (h : ∀ c ∈ s, 48 ≤ c.toNat ∧ c.toNat ≤ 57) : Numeral s ↔ Canonical (digitsOf s) := by
  rw [Numeral, Canonical, and_iff_right h, and_iff_right (digitsOf_lt_ten s h)]
  cases s with
  | nil => simp [digitsOf]
  | cons c rest =>
    have hzero := ascii_sub c (h c List.mem_cons_self)
    simp only [digitsOf, List.map_cons, List.cons.injEq, List.map_eq_nil_iff, hzero]
    constructor
    · rintro (hsingle | ⟨d, more, ⟨rfl, rfl⟩, hd⟩)
      · exact .inl hsingle
      · exact .inr ⟨_, _, ⟨rfl, rfl⟩, fun h0 => hd (hzero.mp h0)⟩
    · rintro (hsingle | ⟨d, more, ⟨rfl, rfl⟩, hd⟩)
      · exact .inl hsingle
      · exact .inr ⟨_, _, ⟨rfl, rfl⟩, fun h0 => hd (hzero.mpr h0)⟩

/-- The printed text is a numeral of the number. -/
theorem text_numeral (k n : Nat) (hn : n < 10 ^ (k + 1)) :
    Numeral (text (k + 1) n) ∧ numeralValue (text (k + 1) n) = n := by
  have hdigits : digitsOf (text (k + 1) n) = decimal (k + 1) n :=
    digitsOf_map_ascii _ (decimal_lt_ten (k + 1) n hn)
  constructor
  · rw [numeral_iff _ (text_digits (k + 1) n hn), hdigits]
    exact decimal_canonical k n hn
  · rw [← value_digitsOf, hdigits, value_decimal (k + 1) n hn]

/-- Every numeral is the printed text of its value. -/
theorem text_numeralValue (k : Nat) (s : Bytes) (h : Numeral s) (hv : numeralValue s < 10 ^ (k + 1)) :
    text (k + 1) (numeralValue s) = s := by
  rw [← value_digitsOf] at hv ⊢
  rw [text, decimal_value k _ ((numeral_iff s h.1).mp h) hv, map_ascii_digitsOf s h.1]

/-- `StrToInt` reads any digits modulo 2 ^ 32. -/
theorem strToInt_digits (s : Bytes) (h : ∀ c ∈ s, 48 ≤ c.toNat ∧ c.toNat ≤ 57) :
    strToInt s = BitVec.ofNat 32 (numeralValue s) := by
  have hloop := strToIntLoop_map (digitsOf s) 0 (digitsOf_lt_ten s h)
  rw [map_ascii_digitsOf s h, ← value, value_digitsOf] at hloop
  exact hloop

end Numerals

section Inverse

variable (size : Nat)

/-- The buffer after a numeral has been printed into it. -/
def printed (s : Bytes) : Bytes := s ++ List.replicate (size - s.length) 0#8

/-- Printing and reading are inverse to each other on every zeroed buffer with room for a terminator: the buffer
holds the numeral, its terminator and what it held before, nothing is divided by zero, and reading it gives the
number; and every numeral of a 32-bit number is printed back from what is read of it. -/
theorem intToStr_strToInt_inverse (hs : 11 ≤ size) :
    (∀ n : U32, ∃ s, Numeral s ∧ numeralValue s = n.toNat ∧ s.length < size ∧
      intToStrChecked 10 (List.replicate size 0#8) n 1000000000#32 0 0 = some (intToStr (List.replicate size 0#8) n) ∧
      intToStr (List.replicate size 0#8) n = printed size s ∧ cString (printed size s) = s ∧ strToInt s = n) ∧
    (∀ s, Numeral s → numeralValue s < 2 ^ 32 →
      intToStrChecked 10 (List.replicate size 0#8) (strToInt s) 1000000000#32 0 0 =
        some (intToStr (List.replicate size 0#8) (strToInt s)) ∧
      intToStr (List.replicate size 0#8) (strToInt s) = printed size s ∧ cString (printed size s) = s) := by
  have hdefined (n : U32) := intToStr_defined (List.replicate size 0#8) n (by rw [List.length_replicate]; omega)
  have hprint (n : U32) := intToStr_zeroed size n (by omega)
  constructor
  · intro n
    obtain ⟨hnumeral, hvalue⟩ := text_numeral 9 n.toNat (u32_lt n)
    have hlen := text_length_le 10 n.toNat
    exact ⟨text 10 n.toNat, hnumeral, hvalue, by omega, hdefined n, hprint n, cString_text n _, strToInt_text n⟩
  · intro s h hv
    have hread := strToInt_digits s h.1
    have htoNat : (strToInt s).toNat = numeralValue s := by
      rw [hread, BitVec.toNat_ofNat]
      exact Nat.mod_eq_of_lt hv
    have htext : text 10 (strToInt s).toNat = s := by
      rw [htoNat]
      exact text_numeralValue 9 s h (by omega)
    have hstring := cString_text (strToInt s) (size - s.length)
    rw [htext] at hstring
    refine ⟨hdefined _, ?_, hstring⟩
    rw [hprint, htext]
    rfl

/-- The smallest buffer, with the largest number and with zero. -/
theorem intToStr_strToInt_eleven :
    (∃ s, numeralValue s = 4294967295 ∧ intToStr (List.replicate 11 0#8) 4294967295#32 = printed 11 s) ∧
    intToStr (List.replicate 11 0#8) (strToInt [48#8]) = printed 11 [48#8] := by
  obtain ⟨hprint, hread⟩ := intToStr_strToInt_inverse 11 (by decide)
  obtain ⟨s, -, hvalue, -, -, hbuffer, -⟩ := hprint 4294967295#32
  exact ⟨⟨s, hvalue, hbuffer⟩, (hread [48#8] ⟨by decide, .inl rfl⟩ (by decide)).2.1⟩

end Inverse

end DataReceiveRelay.DecimalConversion
