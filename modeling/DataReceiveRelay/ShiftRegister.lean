import Mathlib

/-!
# Division by a polynomial in a shift register

A register of width `w` that shifts towards its low end and is fed one bit at a
time, low end first. The bit that leaves decides whether the polynomial is
added. Everything is linear over exclusive or, so two messages can be compared
through their difference: what the register holds after the difference alone.
-/

namespace DataReceiveRelay.ShiftRegister

variable {w : Nat}

/-- One shift; `p` is the polynomial without its leading term, low end first. -/
def shift (p s : BitVec w) : BitVec w := if s.getLsbD 0 then (s >>> 1) ^^^ p else s >>> 1

def shifts (p : BitVec w) : Nat → BitVec w → BitVec w
  | 0, s => s
  | n + 1, s => shifts p n (shift p s)

/-- A single message bit, at the low end. -/
def bit (b : Bool) : BitVec w := (BitVec.ofBool b).setWidth w

/-- Feed the bits of a message in order. -/
def feed (p : BitVec w) (s : BitVec w) (bits : List Bool) : BitVec w :=
  bits.foldl (fun s b => shift p (s ^^^ bit b)) s

/-- Up to `w` bits side by side, the first one at the low end. -/
def load : List Bool → BitVec w
  | [] => 0#w
  | b :: bits => bit b ^^^ (load bits <<< 1)

section Linear

theorem xor_swap (a b c d : BitVec w) : a ^^^ b ^^^ (c ^^^ d) = a ^^^ c ^^^ (b ^^^ d) := by
  rw [BitVec.xor_assoc, BitVec.xor_assoc, ← BitVec.xor_assoc b c d, ← BitVec.xor_assoc c b d, BitVec.xor_comm b c]

theorem shift_xor (p s t : BitVec w) : shift p (s ^^^ t) = shift p s ^^^ shift p t := by
  unfold shift
  rw [BitVec.getLsbD_xor, BitVec.ushiftRight_xor_distrib]
  cases s.getLsbD 0 <;> cases t.getLsbD 0
  · rfl
  · exact BitVec.xor_assoc _ _ _
  · simp only [Bool.xor_false, if_true, Bool.false_eq_true, if_false]
    rw [BitVec.xor_assoc, BitVec.xor_assoc, BitVec.xor_comm p]
  · simp only [Bool.xor_self, Bool.false_eq_true, if_false, if_true]
    rw [xor_swap, BitVec.xor_self, BitVec.xor_zero]

theorem shifts_xor (p : BitVec w) (n : Nat) (s t : BitVec w) :
    shifts p n (s ^^^ t) = shifts p n s ^^^ shifts p n t := by
  induction n generalizing s t with
  | zero => rfl
  | succ n ih => rw [shifts, shift_xor, ih, shifts, shifts]

theorem bit_xor (a b : Bool) : (bit (a ^^ b) : BitVec w) = bit a ^^^ bit b := by
  cases a <;> cases b <;> simp [bit]

@[simp] theorem bit_false : (bit false : BitVec w) = 0#w := by simp [bit]

@[simp] theorem feed_nil (p s : BitVec w) : feed p s [] = s := rfl

@[simp] theorem feed_cons (p s : BitVec w) (b : Bool) (bits : List Bool) :
    feed p s (b :: bits) = feed p (shift p (s ^^^ bit b)) bits := rfl

theorem feed_append (p s : BitVec w) (first second : List Bool) :
    feed p s (first ++ second) = feed p (feed p s first) second :=
  List.foldl_append

/-- The register of a sum of messages is the sum of the registers. -/
theorem feed_xor (p s t : BitVec w) (a b : List Bool) (h : a.length = b.length) :
    feed p (s ^^^ t) (List.zipWith xor a b) = feed p s a ^^^ feed p t b := by
  induction a generalizing s t b with
  | nil =>
    cases b with
    | nil => rfl
    | cons y b => cases h
  | cons x a ih =>
    cases b with
    | nil => cases h
    | cons y b =>
      rw [List.zipWith_cons_cons, feed_cons, feed_cons, feed_cons, bit_xor, xor_swap, shift_xor]
      exact ih _ _ b (by simpa using h)

@[simp] theorem shift_zero (p : BitVec w) : shift p 0#w = 0#w := by simp [shift]

@[simp] theorem shifts_zero (p : BitVec w) (n : Nat) : shifts p n 0#w = 0#w := by
  induction n with
  | zero => rfl
  | succ n ih => rw [shifts, shift_zero, ih]

theorem feed_replicate (p s : BitVec w) (n : Nat) : feed p s (List.replicate n false) = shifts p n s := by
  induction n generalizing s with
  | zero => rfl
  | succ n ih => rw [List.replicate_succ, feed_cons, bit_false, BitVec.xor_zero, ih, shifts]

end Linear

section Loading

theorem getLsbD_bit (b : Bool) (i : Nat) : (bit b : BitVec w).getLsbD i = (decide (i = 0) && decide (0 < w) && b) := by
  rw [bit, BitVec.getLsbD_setWidth, BitVec.getLsbD_ofBool]
  by_cases h : i = 0
  · subst h
    simp
  · simp [h]

/-- The bits lie side by side from the low end on. -/
theorem getLsbD_load (bits : List Bool) (i : Nat) :
    (load bits : BitVec w).getLsbD i = (decide (i < w) && bits.getD i false) := by
  induction bits generalizing i with
  | nil => simp [load]
  | cons b bits ih =>
    rw [load, BitVec.getLsbD_xor, getLsbD_bit, BitVec.getLsbD_shiftLeft]
    cases i with
    | zero => simp
    | succ i =>
      rw [Nat.add_sub_cancel, ih]
      by_cases hi : i + 1 < w
      · have hlow : i < w := by omega
        simp [hi, hlow]
      · simp [hi]

theorem shift_load (p : BitVec w) (bits : List Bool) (h : bits.length < w) :
    shift p (load bits <<< 1) = load bits := by
  have hlow : (load bits <<< 1 : BitVec w).getLsbD 0 = false := by
    rw [BitVec.getLsbD_shiftLeft]
    simp
  rw [shift, hlow]
  apply BitVec.eq_of_getLsbD_eq
  intro i hi
  simp only [Bool.false_eq_true, if_false, BitVec.getLsbD_ushiftRight, BitVec.getLsbD_shiftLeft, getLsbD_load]
  by_cases htop : i + 1 < w
  · have hone : 1 + i < w := by omega
    have hlt : i < w := by omega
    simp [hone, hlt]
  · have hend : bits.length ≤ i := by omega
    have hover : ¬1 + i < w := by omega
    simp [hover, List.getElem?_eq_none hend]

/-- Up to `w` bits can be added to the register at once and shifted through. -/
theorem feed_eq_shifts (p s : BitVec w) (bits : List Bool) (h : bits.length ≤ w) :
    feed p s bits = shifts p bits.length (s ^^^ load bits) := by
  induction bits generalizing s with
  | nil => rw [load, BitVec.xor_zero, feed_nil, List.length_nil, shifts]
  | cons b bits ih =>
    have hlen : bits.length < w := by simpa using h
    rw [feed_cons, ih _ (by omega), List.length_cons, shifts, load, ← BitVec.xor_assoc, shift_xor p _ (load bits <<< 1),
      shift_load p bits hlen]

end Loading

section Detection

/-- A polynomial with a constant term: its top bit, as the register is reversed. -/
def Proper (p : BitVec w) : Prop := 0 < w ∧ p.getLsbD (w - 1) = true

/-- Then a shift loses nothing. -/
theorem shift_eq_zero (p s : BitVec w) (hp : Proper p) (h : shift p s = 0#w) : s = 0#w := by
  obtain ⟨hw, htop⟩ := hp
  have hlow : s.getLsbD 0 = false := by
    by_contra hne
    rw [Bool.not_eq_false] at hne
    have hbit := congrArg (fun v : BitVec w => v.getLsbD (w - 1)) h
    have hover : s.getLsbD (1 + (w - 1)) = false := BitVec.getLsbD_of_ge _ _ (by omega)
    simp [shift, hne, htop, hover] at hbit
  rw [shift, hlow] at h
  apply BitVec.eq_of_getLsbD_eq
  intro i hi
  cases i with
  | zero => simpa using hlow
  | succ i =>
    have hbit := congrArg (fun v : BitVec w => v.getLsbD i) h
    simpa [Nat.add_comm] using hbit

theorem shifts_eq_zero (p : BitVec w) (hp : Proper p) (n : Nat) (s : BitVec w) (h : shifts p n s = 0#w) : s = 0#w := by
  induction n generalizing s with
  | zero => exact h
  | succ n ih => exact shift_eq_zero p s hp (ih _ h)

theorem load_ne_zero (bits : List Bool) (hlen : bits.length ≤ w) (h : true ∈ bits) : (load bits : BitVec w) ≠ 0#w := by
  intro hz
  obtain ⟨i, hi, hget⟩ := List.mem_iff_getElem.mp h
  have hbit : (load bits : BitVec w).getLsbD i = false := by
    rw [hz]
    simp
  have hw : i < w := by omega
  rw [getLsbD_load] at hbit
  simp [hw, hi, hget] at hbit

/-- A difference that stays inside `w` consecutive bits leaves a mark in the register. -/
theorem feed_burst (p : BitVec w) (hp : Proper p) (before after : Nat) (burst : List Bool) (hlen : burst.length ≤ w)
    (h : true ∈ burst) :
    feed p 0#w (List.replicate before false ++ burst ++ List.replicate after false) ≠ 0#w := by
  intro hz
  rw [feed_append, feed_append, feed_replicate, feed_replicate, shifts_zero, feed_eq_shifts p _ burst hlen,
    BitVec.zero_xor] at hz
  exact load_ne_zero burst hlen h (shifts_eq_zero p hp _ _ (shifts_eq_zero p hp _ _ hz))

/-- Two messages are told apart by the register of their difference. -/
theorem feed_eq_iff (p s : BitVec w) (a b : List Bool) (hlen : a.length = b.length) :
    feed p s a = feed p s b ↔ feed p 0#w (List.zipWith xor a b) = 0#w := by
  have hdiff := feed_xor p s s a b hlen
  rw [BitVec.xor_self] at hdiff
  rw [hdiff]
  constructor
  · intro h
    rw [h, BitVec.xor_self]
  · intro h
    have hback := congrArg (· ^^^ feed p s b) h
    simpa [BitVec.xor_assoc] using hback

theorem eq_replicate_of_forall (bits : List Bool) (h : ∀ i : Nat, bits[i]? ≠ some true) :
    bits = List.replicate bits.length false := by
  rw [List.eq_replicate_iff]
  refine ⟨rfl, fun b hb => ?_⟩
  obtain ⟨i, hi, rfl⟩ := List.mem_iff_getElem.mp hb
  have hget := h i
  rw [List.getElem?_eq_getElem hi] at hget
  simpa using hget

theorem difference_getElem? (a b : List Bool) (hlen : a.length = b.length) (i : Nat) :
    (List.zipWith xor a b)[i]? = some true ↔ a[i]? ≠ b[i]? := by
  rw [List.getElem?_zipWith]
  by_cases hi : i < a.length
  · rw [List.getElem?_eq_getElem hi, List.getElem?_eq_getElem (hlen ▸ hi)]
    cases a[i] <;> cases b[i] <;> simp
  · rw [List.getElem?_eq_none (by omega), List.getElem?_eq_none (by omega)]
    simp

/-- Messages that differ in a window of `w` bits only leave different registers. -/
theorem feed_ne_of_burst (p s : BitVec w) (hp : Proper p) (a b : List Bool) (hlen : a.length = b.length)
    (start : Nat) (hburst : ∀ i, a[i]? ≠ b[i]? → start ≤ i ∧ i < start + w) (hne : a ≠ b) :
    feed p s a ≠ feed p s b := by
  have hwindow : ∀ i, (List.zipWith xor a b)[i]? = some true → start ≤ i ∧ i < start + w :=
    fun i hi => hburst i ((difference_getElem? a b hlen i).mp hi)
  generalize hd : List.zipWith xor a b = d at hwindow
  have hbefore : d.take start = List.replicate (d.take start).length false := by
    refine eq_replicate_of_forall _ fun i hi => ?_
    rw [List.getElem?_take] at hi
    split at hi
    · have hin := hwindow i hi
      omega
    · cases hi
  have hafter : (d.drop start).drop w = List.replicate ((d.drop start).drop w).length false := by
    refine eq_replicate_of_forall _ fun i hi => ?_
    rw [List.getElem?_drop, List.getElem?_drop] at hi
    have hin := hwindow _ hi
    omega
  have hmid : true ∈ (d.drop start).take w := by
    obtain ⟨i, hi⟩ : ∃ i : Nat, a[i]? ≠ b[i]? := by
      by_contra hall
      push Not at hall
      exact hne (List.ext_getElem? hall)
    have hbit : d[i]? = some true := hd ▸ (difference_getElem? a b hlen i).mpr hi
    have hin := hwindow i hbit
    apply List.mem_of_getElem? (i := i - start)
    rw [List.getElem?_take_of_lt (by omega), List.getElem?_drop, Nat.add_sub_of_le hin.1]
    exact hbit
  rw [ne_eq, feed_eq_iff p s a b hlen, hd]
  have hsplit : d = d.take start ++ (d.drop start).take w ++ (d.drop start).drop w := by
    rw [List.append_assoc, List.take_append_drop, List.take_append_drop]
  rw [hsplit, hbefore, hafter]
  exact feed_burst p hp _ _ _ (List.length_take_le w _) hmid

/-- The last `w` bits bring the register to zero only if they are what it held. -/
theorem feed_eq_zero_iff (p s : BitVec w) (hp : Proper p) (bits : List Bool) (hlen : bits.length ≤ w) :
    feed p s bits = 0#w ↔ load bits = s := by
  rw [feed_eq_shifts p s bits hlen]
  constructor
  · intro h
    have hsum := congrArg (s ^^^ ·) (shifts_eq_zero p hp _ _ h)
    simpa [← BitVec.xor_assoc] using hsum
  · intro h
    rw [h, BitVec.xor_self, shifts_zero]

end Detection

section Octets

/-- The bits of an octet, low end first. -/
def octetBits (b : BitVec 8) : List Bool := (List.range 8).map b.getLsbD

theorem octetBits_length (b : BitVec 8) : (octetBits b).length = 8 := by
  rw [octetBits, List.length_map, List.length_range]

theorem load_octetBits (b : BitVec 8) : (load (octetBits b) : BitVec w) = b.setWidth w := by
  apply BitVec.eq_of_getLsbD_eq
  intro i hi
  rw [getLsbD_load, BitVec.getLsbD_setWidth]
  by_cases h : i < 8
  · simp [octetBits, h]
  · have hend : (octetBits b).length ≤ i := by rw [octetBits_length]; omega
    simp [List.getElem?_eq_none hend, BitVec.getLsbD_of_ge b i (by omega)]

/-- Where nothing is set below, shifts only move. -/
theorem shifts_eq_ushiftRight (p s : BitVec w) (n : Nat) (h : ∀ i < n, s.getLsbD i = false) :
    shifts p n s = s >>> n := by
  induction n generalizing s with
  | zero => simp [shifts]
  | succ n ih =>
    have hmove : shift p s = s >>> 1 := by
      rw [shift, h 0 (Nat.zero_lt_succ n)]
      simp
    rw [shifts, hmove, ih _ fun i hi => ?_, ← BitVec.shiftRight_add, Nat.add_comm]
    rw [BitVec.getLsbD_ushiftRight]
    exact h (1 + i) (by omega)

/-- Eight shifts are those of the low octet, added to the rest moved down. -/
theorem shifts_octet (p s : BitVec w) :
    shifts p 8 s = (s >>> 8) ^^^ shifts p 8 ((s.setWidth 8).setWidth w) := by
  have hsplit : s = (s ^^^ (s.setWidth 8).setWidth w) ^^^ (s.setWidth 8).setWidth w := by
    rw [BitVec.xor_assoc, BitVec.xor_self, BitVec.xor_zero]
  have hlow : ∀ i < 8, (s ^^^ (s.setWidth 8).setWidth w).getLsbD i = false := by
    intro i hi
    rw [BitVec.getLsbD_xor, BitVec.getLsbD_setWidth, BitVec.getLsbD_setWidth]
    by_cases hw : i < w
    · simp [hi, hw]
    · simp [BitVec.getLsbD_of_ge s i (by omega), hw]
  have hhigh : (s ^^^ (s.setWidth 8).setWidth w) >>> 8 = s >>> 8 := by
    apply BitVec.eq_of_getLsbD_eq
    intro i _
    simp
  conv => lhs; rw [hsplit]
  rw [shifts_xor, shifts_eq_ushiftRight p _ 8 hlow, hhigh]

/-- Feeding an octet needs only the shifts of the octet that leaves. -/
theorem feed_octet (p s : BitVec w) (b : BitVec 8) (hw : 8 ≤ w) :
    feed p s (octetBits b) = (s >>> 8) ^^^ shifts p 8 ((s.setWidth 8 ^^^ b).setWidth w) := by
  have hadd : (s ^^^ b.setWidth w) >>> 8 = s >>> 8 := by
    apply BitVec.eq_of_getLsbD_eq
    intro i hi
    rw [BitVec.ushiftRight_xor_distrib, BitVec.getLsbD_xor, BitVec.getLsbD_ushiftRight, BitVec.getLsbD_ushiftRight,
      BitVec.getLsbD_setWidth, BitVec.getLsbD_of_ge b (8 + i) (by omega), Bool.and_false, Bool.xor_false]
  have hleave : (s ^^^ b.setWidth w).setWidth 8 = s.setWidth 8 ^^^ b := by
    apply BitVec.eq_of_getLsbD_eq
    intro i hi
    have hlt : i < w := by omega
    simp [hi, hlt]
  rw [feed_eq_shifts p s _ (by rw [octetBits_length]; exact hw), octetBits_length, load_octetBits, shifts_octet, hadd,
    hleave]

end Octets

section Parity

/-- A bit as a number modulo two. -/
def parityBit (b : Bool) : ZMod 2 := if b then 1 else 0

def parity (s : BitVec w) : ZMod 2 := ∑ i ∈ Finset.range w, parityBit (s.getLsbD i)

theorem parityBit_xor (a b : Bool) : parityBit (a ^^ b) = parityBit a + parityBit b := by
  cases a <;> cases b <;> decide

theorem parity_xor (s t : BitVec w) : parity (s ^^^ t) = parity s + parity t := by
  rw [parity, parity, parity, ← Finset.sum_add_distrib]
  apply Finset.sum_congr rfl
  intro i _
  rw [BitVec.getLsbD_xor, parityBit_xor]

/-- The bit that leaves is what the parity loses. -/
theorem parity_ushiftRight (s : BitVec w) : parity (s >>> 1) + parityBit (s.getLsbD 0) = parity s := by
  have hsum := Finset.sum_range_succ' (fun i => parityBit (s.getLsbD i)) w
  have htop : s.getLsbD w = false := BitVec.getLsbD_of_ge _ _ (Nat.le_refl w)
  rw [Finset.sum_range_succ, htop] at hsum
  simp only [parityBit, Bool.false_eq_true, if_false, add_zero] at hsum
  rw [parity, parity]
  simp only [parityBit, BitVec.getLsbD_ushiftRight, Nat.add_comm 1]
  exact hsum.symm

theorem parity_bit (hw : 0 < w) (b : Bool) : parity (bit b : BitVec w) = parityBit b := by
  rw [parity, Finset.sum_eq_single 0]
  · rw [getLsbD_bit]
    simp [hw]
  · intro i _ hi
    rw [getLsbD_bit]
    simp [hi, parityBit]
  · intro h
    exact absurd (Finset.mem_range.mpr hw) h

/-- A shift keeps the parity if the polynomial has an odd number of terms besides the leading one. -/
theorem parity_shift (p s : BitVec w) (hodd : parity p = 1) : parity (shift p s) = parity s := by
  have hloss := parity_ushiftRight s
  rw [shift]
  cases hlow : s.getLsbD 0 with
  | false =>
    rw [hlow] at hloss
    simpa [parityBit] using hloss
  | true =>
    rw [hlow] at hloss
    rw [if_pos rfl, parity_xor, hodd]
    simpa [parityBit] using hloss

/-- Then the register counts the ones of the message modulo two. -/
theorem parity_feed (p s : BitVec w) (hw : 0 < w) (hodd : parity p = 1) (bits : List Bool) :
    parity (feed p s bits) = parity s + (bits.map parityBit).sum := by
  induction bits generalizing s with
  | nil => simp
  | cons b bits ih =>
    rw [feed_cons, ih, parity_shift p _ hodd, parity_xor, parity_bit hw, List.map_cons, List.sum_cons, add_assoc]

theorem sum_parityBit (bits : List Bool) : (bits.map parityBit).sum = (bits.count true : ZMod 2) := by
  induction bits with
  | nil => simp
  | cons b bits ih =>
    rw [List.map_cons, List.sum_cons, ih]
    cases b <;> simp [parityBit, add_comm]

/-- Messages that differ in an odd number of bits leave different registers. -/
theorem feed_ne_of_odd (p s : BitVec w) (hw : 0 < w) (hodd : parity p = 1) (a b : List Bool)
    (hlen : a.length = b.length) (h : Odd ((List.zipWith xor a b).count true)) : feed p s a ≠ feed p s b := by
  rw [ne_eq, feed_eq_iff p s a b hlen]
  intro hz
  have hparity := parity_feed p 0#w hw hodd (List.zipWith xor a b)
  have hzero : parity 0#w = 0 := by simp [parity, parityBit]
  rw [hz, hzero, zero_add, sum_parityBit, (ZMod.natCast_eq_one_iff_odd).mpr h] at hparity
  exact zero_ne_one hparity

end Parity

section Pairs

/-- The register does not come back to its lowest bit within `n` shifts. -/
def longPeriod (p : BitVec w) : Nat → BitVec w → Bool
  | 0, _ => true
  | n + 1, s => !(s == bit true) && longPeriod p n (shift p s)

theorem shifts_ne_of_longPeriod (p : BitVec w) (n : Nat) (s : BitVec w) (h : longPeriod p n s = true) (d : Nat)
    (hd : d < n) : shifts p d s ≠ bit true := by
  induction n generalizing s d with
  | zero => omega
  | succ n ih =>
    rw [longPeriod, Bool.and_eq_true, Bool.not_eq_true', beq_eq_false_iff_ne] at h
    cases d with
    | zero => exact h.1
    | succ d => exact ih (shift p s) h.2 d (by omega)

/-- The first bit that is set, and what stands behind it. -/
theorem split_of_count (bits : List Bool) (n : Nat) (h : bits.count true = n + 1) :
    ∃ before rest, bits = List.replicate before false ++ true :: rest ∧ rest.count true = n := by
  induction bits with
  | nil => cases h
  | cons b bits ih =>
    cases b with
    | true => exact ⟨0, bits, rfl, by simpa using h⟩
    | false =>
      obtain ⟨before, rest, hbits, hrest⟩ := ih (by simpa using h)
      exact ⟨before + 1, rest, by rw [hbits]; rfl, hrest⟩

/-- Messages that differ in two bits leave different registers if the period is longer than they are. -/
theorem feed_ne_of_two (p s : BitVec w) (hp : Proper p) (n : Nat) (hperiod : longPeriod p n (shift p (bit true)) = true)
    (a b : List Bool) (hlen : a.length = b.length) (hn : a.length ≤ n) (h : (List.zipWith xor a b).count true = 2) :
    feed p s a ≠ feed p s b := by
  rw [ne_eq, feed_eq_iff p s a b hlen]
  have hlong : (List.zipWith xor a b).length ≤ n := by rw [List.length_zipWith]; omega
  obtain ⟨before, rest, hd, hrest⟩ := split_of_count _ 1 h
  obtain ⟨between, last, hrest', hlast⟩ := split_of_count rest 0 hrest
  have hnone : last = List.replicate last.length false := by
    refine eq_replicate_of_forall last fun i hi => ?_
    exact absurd (List.mem_of_getElem? hi) (List.count_eq_zero.mp hlast)
  rw [hd, hrest'] at hlong ⊢
  rw [hnone, feed_append, feed_replicate, shifts_zero, feed_cons, feed_append, feed_replicate, feed_cons, feed_replicate,
    BitVec.zero_xor]
  intro hzero
  have hsum := shift_eq_zero p _ hp (shifts_eq_zero p hp _ _ hzero)
  have hback : shifts p between (shift p (bit true)) = bit true := BitVec.xor_eq_zero_iff.mp hsum
  refine shifts_ne_of_longPeriod p n _ hperiod between ?_ hback
  simp only [List.length_append, List.length_replicate, List.length_cons] at hlong
  omega

end Pairs

end DataReceiveRelay.ShiftRegister
