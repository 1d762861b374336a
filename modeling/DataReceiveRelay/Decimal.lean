import DataReceiveRelay.Words

/-!
# Canonical decimal text

`fixed k n` lists the `k` decimal digits of `n`, most significant first, and
`trim` drops leading zeros but keeps the last digit. `decimal k n` is therefore
the usual decimal numeral of every `n < 10 ^ k`, whatever `k` is. `value` reads
a digit list back.
-/

namespace DataReceiveRelay.Decimal

open Words

/-- The `k` digits of `n`, most significant first. -/
def fixed : Nat → Nat → List Nat
  | 0, _ => []
  | k + 1, n => n / 10 ^ k :: fixed k (n % 10 ^ k)

/-- Drop leading zeros, keeping at least one digit. -/
def trim : List Nat → List Nat
  | [] => []
  | [d] => [d]
  | d :: e :: digits => if d = 0 then trim (e :: digits) else d :: e :: digits

/-- The decimal numeral of `n < 10 ^ k`. -/
def decimal (k n : Nat) : List Nat := trim (fixed k n)

/-- The number a digit list denotes. -/
def value (digits : List Nat) : Nat := digits.foldl (fun m d => 10 * m + d) 0

@[simp] theorem fixed_length (k n : Nat) : (fixed k n).length = k := by
  induction k generalizing n with
  | zero => rfl
  | succ k ih => simp [fixed, ih]

theorem fixed_lt_ten (k n : Nat) (hn : n < 10 ^ k) : ∀ d ∈ fixed k n, d < 10 := by
  induction k generalizing n with
  | zero => simp [fixed]
  | succ k ih =>
    intro d hd
    rcases List.mem_cons.mp hd with rfl | hd
    · rw [Nat.div_lt_iff_lt_mul (by positivity)]
      rw [pow_succ] at hn
      omega
    · exact ih _ (Nat.mod_lt _ (by positivity)) d hd

theorem foldl_fixed (k n m : Nat) (hn : n < 10 ^ k) :
    (fixed k n).foldl (fun m d => 10 * m + d) m = 10 ^ k * m + n := by
  induction k generalizing n m with
  | zero =>
    simp only [pow_zero] at hn
    simp [fixed]
    omega
  | succ k ih =>
    rw [fixed, List.foldl_cons, ih _ _ (Nat.mod_lt _ (by positivity)), pow_succ]
    have hdm := Nat.div_add_mod n (10 ^ k)
    rw [mul_add, ← mul_assoc]
    omega

/-- The digits of a number denote it. -/
theorem value_fixed (k n : Nat) (hn : n < 10 ^ k) : value (fixed k n) = n := by
  rw [value, foldl_fixed k n 0 hn]
  omega

theorem value_trim (digits : List Nat) : value (trim digits) = value digits := by
  induction digits using trim.induct with
  | case1 => rfl
  | case2 d => rfl
  | case3 d digits ih => simpa [trim, value] using ih
  | case4 d e digits hd => simp [trim, hd]

theorem value_decimal (k n : Nat) (hn : n < 10 ^ k) : value (decimal k n) = n := by
  rw [decimal, value_trim, value_fixed k n hn]

theorem mem_of_mem_trim (digits : List Nat) (d : Nat) (h : d ∈ trim digits) : d ∈ digits := by
  induction digits using trim.induct with
  | case1 => exact h
  | case2 e => exact h
  | case3 e digits ih =>
    simp only [trim, if_true] at h
    exact List.mem_cons_of_mem 0 (ih h)
  | case4 e f digits he => simpa [trim, he] using h

theorem trim_ne_nil (digits : List Nat) (h : digits ≠ []) : trim digits ≠ [] := by
  induction digits using trim.induct with
  | case1 => exact h
  | case2 d => simp [trim]
  | case3 d digits ih => simpa [trim] using ih
  | case4 d e digits hd => simp [trim, hd]

/-- Only the numeral of zero starts with a zero. -/
theorem trim_head_ne_zero (digits : List Nat) (d : Nat) (rest : List Nat) (h : trim digits = d :: rest)
    (hv : 0 < value digits) : d ≠ 0 := by
  induction digits using trim.induct with
  | case1 => cases h
  | case2 e =>
    obtain ⟨rfl, -⟩ : e = d ∧ [] = rest := by simpa [trim] using h
    simp [value] at hv
    omega
  | case3 e digits ih =>
    simp only [trim, if_true] at h
    exact ih h (by simpa [value] using hv)
  | case4 e f digits he =>
    simp only [trim, if_neg he, List.cons.injEq] at h
    rwa [← h.1]

theorem trim_length_le (digits : List Nat) : (trim digits).length ≤ digits.length := by
  induction digits using trim.induct with
  | case1 => simp [trim]
  | case2 d => simp [trim]
  | case3 d digits ih =>
    simp only [trim, if_true, List.length_cons] at ih ⊢
    omega
  | case4 d e digits hd => simp [trim, hd]

theorem decimal_lt_ten (k n : Nat) (hn : n < 10 ^ k) : ∀ d ∈ decimal k n, d < 10 :=
  fun d hd => fixed_lt_ten k n hn d (mem_of_mem_trim _ d hd)

theorem decimal_ne_nil (k n : Nat) : decimal (k + 1) n ≠ [] :=
  trim_ne_nil _ (by simp [fixed])

theorem decimal_length_le (k n : Nat) : (decimal k n).length ≤ k := by
  have h := trim_length_le (fixed k n)
  rwa [fixed_length] at h

theorem decimal_head_ne_zero (k n d : Nat) (rest : List Nat) (hn : n < 10 ^ k) (hpos : 0 < n)
    (h : decimal k n = d :: rest) : d ≠ 0 :=
  trim_head_ne_zero _ d rest h (by rw [value_fixed k n hn]; exact hpos)

section Canonical

/-- Digits without a leading zero; zero itself has one digit. -/
def Canonical (digits : List Nat) : Prop :=
  (∀ d ∈ digits, d < 10) ∧ (digits = [0] ∨ ∃ d rest, digits = d :: rest ∧ d ≠ 0)

theorem value_eq_ofDigits (digits : List Nat) : value digits = Nat.ofDigits 10 digits.reverse := by
  rw [Nat.ofDigits_eq_foldr, List.foldr_reverse, value]
  congr 1
  funext m d
  simp [Nat.add_comm]

theorem value_ne_zero (d : Nat) (rest : List Nat) (hd : d ≠ 0) : value (d :: rest) ≠ 0 := by
  have hpos : 0 < 10 ^ rest.length * d := Nat.mul_pos (by positivity) (Nat.pos_of_ne_zero hd)
  rw [value_eq_ofDigits, Nat.ofDigits_reverse_cons]
  omega

theorem digits_value (d : Nat) (rest : List Nat) (hlt : ∀ e ∈ d :: rest, e < 10) (hd : d ≠ 0) :
    Nat.digits 10 (value (d :: rest)) = (d :: rest).reverse := by
  rw [value_eq_ofDigits]
  apply Nat.digits_ofDigits 10 (by decide)
  · intro e he
    exact hlt e (List.mem_reverse.mp he)
  · intro hne
    simpa using hd

/-- A canonical numeral is determined by the number it denotes. -/
theorem canonical_unique (a b : List Nat) (ha : Canonical a) (hb : Canonical b) (h : value a = value b) : a = b := by
  obtain ⟨hlta, rfl | ⟨d, rest, rfl, hd⟩⟩ := ha
  · obtain ⟨hltb, rfl | ⟨e, more, rfl, he⟩⟩ := hb
    · rfl
    · exact absurd h.symm (value_ne_zero e more he)
  · obtain ⟨hltb, rfl | ⟨e, more, rfl, he⟩⟩ := hb
    · exact absurd h (value_ne_zero d rest hd)
    · rw [← List.reverse_inj, ← digits_value d rest hlta hd, ← digits_value e more hltb he, h]

theorem trim_of_zero (digits : List Nat) (hne : digits ≠ []) (h : value digits = 0) : trim digits = [0] := by
  induction digits using trim.induct with
  | case1 => exact absurd rfl hne
  | case2 d =>
    have hd : d = 0 := by simpa [value] using h
    rw [trim, hd]
  | case3 d digits ih =>
    rw [trim, if_pos rfl]
    exact ih (by simp) (by simpa [value] using h)
  | case4 d e digits hd => exact absurd h (value_ne_zero d (e :: digits) hd)

theorem decimal_canonical (k n : Nat) (hn : n < 10 ^ (k + 1)) : Canonical (decimal (k + 1) n) := by
  refine ⟨decimal_lt_ten (k + 1) n hn, ?_⟩
  by_cases hz : n = 0
  · exact .inl (trim_of_zero _ (by simp [fixed]) (by rw [value_fixed _ _ hn, hz]))
  · obtain ⟨d, rest, hdigits⟩ := List.exists_cons_of_ne_nil (decimal_ne_nil k n)
    exact .inr ⟨d, rest, hdigits, decimal_head_ne_zero (k + 1) n d rest hn (by omega) hdigits⟩

/-- Every canonical numeral is the decimal of its value. -/
theorem decimal_value (k : Nat) (digits : List Nat) (h : Canonical digits) (hv : value digits < 10 ^ (k + 1)) :
    decimal (k + 1) (value digits) = digits :=
  canonical_unique _ _ (decimal_canonical k _ hv) h (value_decimal (k + 1) _ hv)

end Canonical

/-- The ASCII code of a digit. -/
def ascii (d : Nat) : U8 := BitVec.ofNat 8 (48 + d)

theorem ascii_toNat (d : Nat) (h : d < 10) : (ascii d).toNat = 48 + d := by
  simp only [ascii, BitVec.toNat_ofNat]
  omega

/-- The numeral as bytes. -/
def text (k n : Nat) : List U8 := (decimal k n).map ascii

theorem text_ne_nil (k n : Nat) : text (k + 1) n ≠ [] := by
  simpa [text] using decimal_ne_nil k n

theorem text_length_le (k n : Nat) : (text k n).length ≤ k := by
  simpa [text] using decimal_length_le k n

/-- Every byte of a numeral is a digit character. -/
theorem text_digits (k n : Nat) (hn : n < 10 ^ k) (c : U8) (hc : c ∈ text k n) :
    48 ≤ c.toNat ∧ c.toNat ≤ 57 := by
  obtain ⟨d, hd, rfl⟩ := List.mem_map.mp hc
  have := decimal_lt_ten k n hn d hd
  rw [ascii_toNat d this]
  omega

end DataReceiveRelay.Decimal
