import Mathlib

/-!
# Blocks of a memory

A memory is a total function on addresses. `block` reads consecutive cells,
`place` writes them; the lemmas say how the two meet, cell by cell and for
whole blocks.
-/

namespace DataReceiveRelay.Blocks

variable {α : Type}

/-- The `n` cells from `p` on. -/
def block (memory : Nat → α) (p n : Nat) : List α := (List.range' p n).map memory

/-- The memory with `values` written from `p` on. -/
def place (memory : Nat → α) (p : Nat) (values : List α) : Nat → α :=
  fun a => if p ≤ a then (values[a - p]?).getD (memory a) else memory a

@[simp] theorem block_length (memory : Nat → α) (p n : Nat) : (block memory p n).length = n := by
  rw [block, List.length_map, List.length_range']

@[simp] theorem block_zero (memory : Nat → α) (p : Nat) : block memory p 0 = [] := rfl

theorem block_succ (memory : Nat → α) (p n : Nat) : block memory p (n + 1) = memory p :: block memory (p + 1) n := by
  rw [block, List.range'_succ, List.map_cons, block]

theorem block_add (memory : Nat → α) (p m n : Nat) :
    block memory p (m + n) = block memory p m ++ block memory (p + m) n := by
  rw [block, block, block, ← List.map_append, List.range'_append_1]

theorem block_congr (memory memory' : Nat → α) (p n : Nat) (h : ∀ a, p ≤ a → a < p + n → memory a = memory' a) :
    block memory p n = block memory' p n := by
  apply List.map_congr_left
  intro a ha
  rw [List.mem_range'_1] at ha
  exact h a ha.1 ha.2

theorem block_comp (memory : Nat → α) (d p n : Nat) : block (fun k => memory (k + d)) p n = block memory (p + d) n := by
  induction n generalizing p with
  | zero => rfl
  | succ n ih => rw [block_succ, block_succ, ih, Nat.add_right_comm]

@[simp] theorem place_nil (memory : Nat → α) (p : Nat) : place memory p [] = memory := by
  funext a
  simp [place]

/-- Writing a block is writing its cells in order. -/
theorem place_cons (memory : Nat → α) (p : Nat) (v : α) (values : List α) :
    place memory p (v :: values) = place (Function.update memory p v) (p + 1) values := by
  funext a
  rw [place, place]
  by_cases hlt : a < p
  · rw [if_neg (by omega), if_neg (by omega), Function.update_of_ne (by omega)]
  · by_cases heq : a = p
    · subst heq
      rw [if_pos (Nat.le_refl a), if_neg (by omega), Function.update_self]
      simp
    · rw [if_pos (by omega), if_pos (by omega), Function.update_of_ne heq, show a - p = a - (p + 1) + 1 by omega,
        List.getElem?_cons_succ]

theorem place_outside (memory : Nat → α) (p : Nat) (values : List α) (a : Nat) (h : a < p ∨ p + values.length ≤ a) :
    place memory p values a = memory a := by
  rw [place]
  by_cases hp : p ≤ a
  · rw [if_pos hp, List.getElem?_eq_none (by omega)]
    rfl
  · rw [if_neg hp]

theorem place_append (memory : Nat → α) (p : Nat) (first second : List α) :
    place memory p (first ++ second) = place (place memory p first) (p + first.length) second := by
  induction first generalizing memory p with
  | nil => simp
  | cons v first ih =>
    rw [List.cons_append, place_cons, ih, place_cons, List.length_cons]
    congr 1
    omega

/-- What has been written is read back. -/
theorem block_place (memory : Nat → α) (p : Nat) (values : List α) :
    block (place memory p values) p values.length = values := by
  induction values generalizing memory p with
  | nil => rfl
  | cons v values ih =>
    rw [List.length_cons, block_succ, place_cons, ih, place_outside _ _ _ _ (Or.inl (Nat.lt_succ_self p)),
      Function.update_self]

/-- A block beside the written one reads as before. -/
theorem block_place_disjoint (memory : Nat → α) (p q n : Nat) (values : List α)
    (h : q + n ≤ p ∨ p + values.length ≤ q) : block (place memory p values) q n = block memory q n := by
  apply block_congr
  intro a hlo hhi
  exact place_outside memory p values a (by omega)

/-- The front of a block that has been copied. -/
theorem block_place_front (memory other : Nat → α) (p q k n : Nat) (h : k ≤ n) :
    block (place memory p (block other q n)) p k = block other q k := by
  obtain ⟨d, rfl⟩ := Nat.exists_eq_add_of_le h
  have hfront := block_place memory p (block other q k)
  rw [block_length] at hfront
  rw [block_add, place_append, block_place_disjoint _ _ _ _ _ (Or.inl (by rw [block_length])), hfront]

theorem getElem?_block (memory : Nat → α) (p n k : Nat) (h : k < n) : (block memory p n)[k]? = some (memory (p + k)) := by
  rw [block, List.getElem?_map, List.getElem?_range' h]
  simp

/-- A block copied from another memory, cell by cell. -/
theorem place_block (memory other : Nat → α) (p q n a : Nat) :
    place memory p (block other q n) a = if p ≤ a ∧ a < p + n then other (q + (a - p)) else memory a := by
  by_cases h : p ≤ a ∧ a < p + n
  · rw [place, if_pos h.1, if_pos h, getElem?_block other q n (a - p) (by omega)]
    rfl
  · rw [if_neg h, place_outside memory p _ a (by rw [block_length]; omega)]

end DataReceiveRelay.Blocks
