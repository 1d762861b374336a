import DataReceiveRelay.DataFrame

/-!
# Burst errors in a frame

The bits of a frame are numbered byte by byte, most significant bit first. A
burst of eight bits reaches into two bytes at most: it changes the low bits of
the first by less than some power of two, and the high bits of the second by a
multiple of it. No two such changes cancel in a sum of bytes.
-/

namespace DataReceiveRelay.BurstErrors

open Words Radio DataFrame

section Window

/-- Bit `p` of a string of bytes. -/
def bitAt (b : Nat → U8) (p : Nat) : Bool := (b (p / 8)).getMsbD (p % 8)

/-- The first `n` bytes differ at most in the eight bits from `start` on. -/
def BurstAt (n : Nat) (b b' : Nat → U8) (start : Nat) : Prop :=
  ∀ p < 8 * n, bitAt b p ≠ bitAt b' p → start ≤ p ∧ p < start + 8

/-- How much byte `j` has changed. -/
def delta (b b' : Nat → U8) (j : Nat) : Int := (b' j).toNat - (b j).toNat

theorem eq_of_delta_eq_zero (b b' : Nat → U8) (j : Nat) (h : delta b b' j = 0) : b j = b' j := by
  apply BitVec.eq_of_toNat_eq
  rw [delta] at h
  omega

variable {n : Nat} {b b' : Nat → U8} {start : Nat}

theorem BurstAt.bit_eq (h : BurstAt n b b' start) (j : Nat) (hj : j < n) (k : Nat) (hk : k < 8)
    (hout : 8 * j + k < start ∨ start + 8 ≤ 8 * j + k) : (b j).getMsbD k = (b' j).getMsbD k := by
  have hbyte : (8 * j + k) / 8 = j := by omega
  have hbit : (8 * j + k) % 8 = k := by omega
  by_contra hne
  have hp := h (8 * j + k) (by omega) (by rwa [bitAt, bitAt, hbyte, hbit])
  omega

theorem BurstAt.byte_eq (h : BurstAt n b b' start) (j : Nat) (hj : j < n) (hfirst : j ≠ start / 8)
    (hsecond : j ≠ start / 8 + 1) : b j = b' j :=
  BitVec.eq_of_getMsbD_eq fun k hk => h.bit_eq j hj k hk (by omega)

/-- The high bits of the first byte are in front of the burst. -/
theorem BurstAt.high_eq (h : BurstAt n b b' start) (hj : start / 8 < n) :
    (b (start / 8)).toNat / 2 ^ (8 - start % 8) = (b' (start / 8)).toNat / 2 ^ (8 - start % 8) := by
  apply Nat.eq_of_testBit_eq
  intro i
  rw [Nat.testBit_div_two_pow, Nat.testBit_div_two_pow, BitVec.testBit_toNat, BitVec.testBit_toNat,
    BitVec.getLsbD_eq_getMsbD, BitVec.getLsbD_eq_getMsbD]
  by_cases hi : i + (8 - start % 8) < 8
  · rw [h.bit_eq _ hj _ (by omega) (by omega)]
  · simp [hi]

/-- The low bits of the second byte are behind it. -/
theorem BurstAt.low_eq (h : BurstAt n b b' start) (hj : start / 8 + 1 < n) :
    (b (start / 8 + 1)).toNat % 2 ^ (8 - start % 8) = (b' (start / 8 + 1)).toNat % 2 ^ (8 - start % 8) := by
  apply Nat.eq_of_testBit_eq
  intro i
  rw [Nat.testBit_mod_two_pow, Nat.testBit_mod_two_pow, BitVec.testBit_toNat, BitVec.testBit_toNat,
    BitVec.getLsbD_eq_getMsbD, BitVec.getLsbD_eq_getMsbD]
  by_cases hi : i < 8 - start % 8
  · rw [h.bit_eq _ hj _ (by omega) (by omega)]
  · simp [hi]

theorem BurstAt.delta_lt (h : BurstAt n b b' start) (hj : start / 8 < n) :
    |delta b b' (start / 8)| < 2 ^ (8 - start % 8) := by
  have hhigh := h.high_eq hj
  have hold := Nat.div_add_mod (b (start / 8)).toNat (2 ^ (8 - start % 8))
  have hnew := Nat.div_add_mod (b' (start / 8)).toNat (2 ^ (8 - start % 8))
  have hlt := Nat.mod_lt (b (start / 8)).toNat (Nat.two_pow_pos (8 - start % 8))
  have hlt' := Nat.mod_lt (b' (start / 8)).toNat (Nat.two_pow_pos (8 - start % 8))
  rw [hhigh] at hold
  rw [abs_lt, delta]
  have hcast : ((2 ^ (8 - start % 8) : Nat) : Int) = 2 ^ (8 - start % 8) := by push_cast; rfl
  rw [← hcast]
  constructor <;> omega

theorem BurstAt.dvd_delta (h : BurstAt n b b' start) (hj : start / 8 + 1 < n) :
    (2 ^ (8 - start % 8) : Int) ∣ delta b b' (start / 8 + 1) := by
  have hdvd := (Nat.modEq_iff_dvd).mp (h.low_eq hj)
  rw [delta]
  exact_mod_cast hdvd

end Window

section Frame

variable {b b' : Nat → U8} {start : Nat}

/-- Two good frames differ by as much in the check bytes as in the sum. -/
theorem good_delta (hb : GoodFrame b) (hb' : GoodFrame b') :
    256 * delta b b' 10 + delta b b' 11 = ∑ j ∈ Finset.range 10, delta b b' j := by
  have hold := hb.2
  have hnew := hb'.2
  simp only [delta, Finset.sum_sub_distrib]
  rw [byteSum] at hold hnew
  have hsum : ((∑ k ∈ Finset.range 10, (b k).toNat : Nat) : Int) = ∑ k ∈ Finset.range 10, ((b k).toNat : Int) := by
    push_cast; rfl
  have hsum' : ((∑ k ∈ Finset.range 10, (b' k).toNat : Nat) : Int) =
      ∑ k ∈ Finset.range 10, ((b' k).toNat : Int) := by
    push_cast; rfl
  rw [← hsum, ← hsum', ← hold, ← hnew]
  push_cast
  ring

theorem delta_bounds (b b' : Nat → U8) (j : Nat) : -256 < delta b b' j ∧ delta b b' j < 256 := by
  have := (b j).isLt
  have := (b' j).isLt
  rw [delta]
  omega

section Burst

variable (h : BurstAt 12 b b' start) (hb : GoodFrame b) (hb' : GoodFrame b')

include h hb hb'

/-- Both bytes among the summed ones. -/
theorem deltas_in_sum (hq : start / 8 + 1 < 10) :
    delta b b' (start / 8) = 0 ∧ delta b b' (start / 8 + 1) = 0 := by
  have hzero (j : Nat) (hj : j < 12) (h₁ : j ≠ start / 8) (h₂ : j ≠ start / 8 + 1) : delta b b' j = 0 := by
    rw [delta, h.byte_eq j hj h₁ h₂, sub_self]
  have hsum : ∑ j ∈ Finset.range 10, delta b b' j = delta b b' (start / 8) + delta b b' (start / 8 + 1) := by
    apply Finset.sum_eq_add_of_mem
    · simp only [Finset.mem_range]
      omega
    · simpa using hq
    · omega
    · intro j hj hne
      exact hzero j (by have := Finset.mem_range.mp hj; omega) hne.1 hne.2
  have hgood := good_delta hb hb'
  rw [hsum, hzero 10 (by omega) (by omega) (by omega), hzero 11 (by omega) (by omega) (by omega)] at hgood
  have hdvd : (2 ^ (8 - start % 8) : Int) ∣ delta b b' (start / 8) := by
    have hneg : delta b b' (start / 8) = -delta b b' (start / 8 + 1) := by omega
    rw [hneg]
    exact (h.dvd_delta (by omega)).neg_right
  have hfirst := Int.eq_zero_of_abs_lt_dvd hdvd (h.delta_lt (by omega))
  exact ⟨hfirst, by omega⟩

/-- The last summed byte and the first check byte. -/
theorem deltas_at_check (hq : start / 8 = 9) : delta b b' 9 = 0 ∧ delta b b' 10 = 0 := by
  have hzero (j : Nat) (hj : j < 12) (h₁ : j ≠ 9) (h₂ : j ≠ 10) : delta b b' j = 0 := by
    rw [delta, h.byte_eq j hj (by omega) (by omega), sub_self]
  have hsum : ∑ j ∈ Finset.range 10, delta b b' j = delta b b' 9 := by
    apply Finset.sum_eq_single_of_mem
    · simp
    · intro j hj hne
      have hlt := Finset.mem_range.mp hj
      exact hzero j (by omega) hne (by omega)
  have hgood := good_delta hb hb'
  rw [hsum, hzero 11 (by omega) (by omega) (by omega)] at hgood
  have hbounds := delta_bounds b b' 9
  omega

/-- The two check bytes. -/
theorem deltas_in_check (hq : 10 ≤ start / 8) : delta b b' 10 = 0 ∧ delta b b' 11 = 0 := by
  have hsum : ∑ j ∈ Finset.range 10, delta b b' j = 0 := by
    apply Finset.sum_eq_zero
    intro j hj
    have hlt := Finset.mem_range.mp hj
    rw [delta, h.byte_eq j (by omega) (by omega) (by omega), sub_self]
  have hgood := good_delta hb hb'
  have hbounds := delta_bounds b b' 11
  rw [hsum] at hgood
  omega

/-- Two good frames that differ by one burst are the same frame. -/
theorem eq_of_burst (j : Nat) (hj : j < 12) : b j = b' j := by
  by_cases hne : j ≠ start / 8 ∧ j ≠ start / 8 + 1
  · exact h.byte_eq j hj hne.1 hne.2
  · apply eq_of_delta_eq_zero
    by_cases hin : start / 8 + 1 < 10
    · obtain ⟨hfirst, hsecond⟩ := deltas_in_sum h hb hb' hin
      by_cases hjq : j = start / 8
      · rw [hjq, hfirst]
      · rw [show j = start / 8 + 1 by omega, hsecond]
    · by_cases hat : start / 8 = 9
      · obtain ⟨hfirst, hsecond⟩ := deltas_at_check h hb hb' hat
        by_cases hj9 : j = 9
        · rw [hj9, hfirst]
        · rw [show j = 10 by omega, hsecond]
      · obtain ⟨hfirst, hsecond⟩ := deltas_in_check h hb hb' (by omega)
        by_cases hj10 : j = 10
        · rw [hj10, hfirst]
        · rw [show j = 11 by omega, hsecond]

end Burst

variable {F : Type} [CFloat F]

/-- An accepted frame with a burst of up to eight bits in it is refused, and the refusal leaves the
node structure alone. -/
theorem burst_detected (f f' : Nat → U8) (value value' : StatusRegisters) (nodeData nodeData' : NodeData F)
    (haccepted : (dataFrameAnalysis f value nodeData).1 = 0#8)
    (hburst : ∃ start, ∀ p < 96, bitAt f p ≠ bitAt f' p → start ≤ p ∧ p < start + 8)
    (hne : ∃ j < 12, f j ≠ f' j) :
    (dataFrameAnalysis f' value' nodeData').1 ≠ 0#8 ∧ (dataFrameAnalysis f' value' nodeData').2 = nodeData' := by
  obtain ⟨start, hstart⟩ := hburst
  obtain ⟨j, hj, hdiff⟩ := hne
  have hgood := (dataFrameAnalysis_eq_zero_iff f value nodeData).mp haccepted
  have hbad : ¬GoodFrame f' := fun hgood' => hdiff (eq_of_burst hstart hgood hgood' j hj)
  exact ⟨mt (dataFrameAnalysis_eq_zero_iff f' value' nodeData').mp hbad,
    dataFrameAnalysis_rejected f' value' nodeData' hbad⟩

/-- A frame of device 0 and the same frame with bits 54 to 57 inverted. -/
def sentFrame (j : Nat) : U8 :=
  [0x5A#8, 0#8, 0#8, 0#8, 0#8, 0#8, 1#8, 0#8, 1#8, 0#8, 0#8, 0x5C#8].getD j 0#8

def hitFrame (j : Nat) : U8 :=
  [0x5A#8, 0#8, 0#8, 0#8, 0#8, 0#8, 2#8, 0xC0#8, 1#8, 0#8, 0#8, 0x5C#8].getD j 0#8

def emptyNode : NodeData Float := ⟨false, 0#32, 0, 0, 0#8, 0#8, 0#8⟩

theorem burst_detected_in_temperature :
    (dataFrameAnalysis hitFrame ⟨0#8, 0#8⟩ emptyNode).1 ≠ 0#8 ∧
      (dataFrameAnalysis hitFrame ⟨0#8, 0#8⟩ emptyNode).2 = emptyNode :=
  burst_detected sentFrame hitFrame ⟨0#8, 0#8⟩ ⟨0#8, 0#8⟩ emptyNode emptyNode
    ((dataFrameAnalysis_eq_zero_iff _ _ _).mpr (by decide)) ⟨54, by decide⟩ ⟨6, by decide, by decide⟩

end Frame

end DataReceiveRelay.BurstErrors
