import Mathlib

/-!
# Runs of labelled steps

A system is a step function on states and labels. A run applies a finite list
of labels in order; `Allowed` says that a condition on the label and the state
before it holds at every step of the run. No bound on the run is assumed.

`assign` is the companion notion for memories: a list of cell writes applied
in order to a total function.
-/

namespace DataReceiveRelay.Runs

variable {σ ι : Type}

/-- The state after a finite list of labels. -/
def run (step : σ → ι → σ) (s : σ) (labels : List ι) : σ := labels.foldl step s

@[simp] theorem run_nil (step : σ → ι → σ) (s : σ) : run step s [] = s := rfl
@[simp] theorem run_cons (step : σ → ι → σ) (s : σ) (i : ι) (labels : List ι) :
    run step s (i :: labels) = run step (step s i) labels := rfl

theorem run_append (step : σ → ι → σ) (s : σ) (first second : List ι) :
    run step s (first ++ second) = run step (run step s first) second :=
  List.foldl_append

/-- Every step of the run meets `ok` in the state it is taken from. -/
def Allowed (step : σ → ι → σ) (ok : σ → ι → Prop) : σ → List ι → Prop
  | _, [] => True
  | s, i :: labels => ok s i ∧ Allowed step ok (step s i) labels

instance decidableAllowed (step : σ → ι → σ) (ok : σ → ι → Prop) [∀ s i, Decidable (ok s i)] :
    ∀ s labels, Decidable (Allowed step ok s labels)
  | _, [] => inferInstanceAs (Decidable True)
  | s, i :: labels =>
    have := decidableAllowed step ok (step s i) labels
    inferInstanceAs (Decidable (ok s i ∧ Allowed step ok (step s i) labels))

theorem allowed_append (step : σ → ι → σ) (ok : σ → ι → Prop) (s : σ) (first second : List ι) :
    Allowed step ok s (first ++ second) ↔
      Allowed step ok s first ∧ Allowed step ok (run step s first) second := by
  induction first generalizing s with
  | nil => simp [Allowed]
  | cons i first ih => simp [Allowed, ih, and_assoc]

theorem allowed_of_forall {step : σ → ι → σ} {ok : σ → ι → Prop} (s : σ) (labels : List ι)
    (h : ∀ i ∈ labels, ∀ s, ok s i) : Allowed step ok s labels := by
  induction labels generalizing s with
  | nil => trivial
  | cons i labels ih => exact ⟨h i (by simp) s, ih (step s i) fun j hj => h j (by simp [hj])⟩

/-- A property kept by every allowed step holds at the end of an allowed run. -/
theorem invariant_of_allowed {step : σ → ι → σ} {ok : σ → ι → Prop} {Inv : σ → Prop}
    (hstep : ∀ s i, Inv s → ok s i → Inv (step s i)) (s : σ) (labels : List ι)
    (hs : Inv s) (hok : Allowed step ok s labels) : Inv (run step s labels) := by
  induction labels generalizing s with
  | nil => exact hs
  | cons i labels ih => exact ih (step s i) (hstep s i hs hok.1) hok.2

/-- A property kept by every step holds at the end of every run. -/
theorem invariant {step : σ → ι → σ} {Inv : σ → Prop}
    (hstep : ∀ s i, Inv s → Inv (step s i)) (s : σ) (labels : List ι) (hs : Inv s) :
    Inv (run step s labels) := by
  induction labels generalizing s with
  | nil => exact hs
  | cons i labels ih => exact ih (step s i) (hstep s i hs)

/-- If every step that leads to `P` is allowed, the runs with `P` all along are exactly the allowed ones. -/
theorem prefixes_iff_allowed {step : σ → ι → σ} {ok : σ → ι → Prop} {Inv P : σ → Prop}
    (hstep : ∀ s i, Inv s → ok s i → Inv (step s i)) (hp : ∀ s, Inv s → P s)
    (hback : ∀ s i, Inv s → P (step s i) → ok s i) (s : σ) (labels : List ι) (hs : Inv s) :
    (∀ reached, reached <+: labels → P (run step s reached)) ↔ Allowed step ok s labels := by
  constructor
  · intro h
    induction labels generalizing s with
    | nil => trivial
    | cons i labels ih =>
      have hok : ok s i := hback s i hs (h [i] ⟨labels, rfl⟩)
      refine ⟨hok, ih (step s i) (hstep s i hs hok) ?_⟩
      rintro reached ⟨rest, rfl⟩
      exact h (i :: reached) ⟨rest, rfl⟩
  · rintro h reached ⟨rest, rfl⟩
    rw [allowed_append] at h
    exact hp _ (invariant_of_allowed hstep s reached hs h.1)

/-- Two runs that agree on what is `seen` still do when the second one leaves out the steps nobody sees. -/
theorem run_filter {step : σ → ι → σ} {agree : σ → σ → Prop} {seen : ι → Bool}
    (hseen : ∀ s t i, agree s t → seen i = true → agree (step s i) (step t i))
    (hunseen : ∀ s t i, agree s t → seen i = false → agree (step s i) t) (s t : σ) (labels : List ι)
    (h : agree s t) : agree (run step s labels) (run step t (labels.filter seen)) := by
  induction labels generalizing s t with
  | nil => exact h
  | cons i labels ih =>
    cases hi : seen i with
    | true =>
      rw [List.filter_cons_of_pos hi]
      exact ih _ _ (hseen s t i h hi)
    | false =>
      rw [List.filter_cons_of_neg (by simp [hi])]
      exact ih _ _ (hunseen s t i h hi)

/-- A run that contains, in order, all that its first state needs ends in a state that needs nothing. -/
theorem run_of_need {step : σ → ι → σ} {ok : σ → ι → Prop} {Inv : σ → Prop} (need : σ → List ι)
    (hstep : ∀ s i, Inv s → ok s i → Inv (step s i))
    (hahead : ∀ s i rest, Inv s → ok s i → need s = i :: rest → (need (step s i)).Sublist rest)
    (hwait : ∀ s i, Inv s → ok s i → (∀ rest, need s ≠ i :: rest) → (need (step s i)).Sublist (need s))
    (s : σ) (labels : List ι) (hs : Inv s) (hok : Allowed step ok s labels) (h : (need s).Sublist labels) :
    need (run step s labels) = [] := by
  induction labels generalizing s with
  | nil => exact List.sublist_nil.mp h
  | cons i labels ih =>
    apply ih (step s i) (hstep s i hs hok.1) hok.2
    by_cases hhead : ∃ rest, need s = i :: rest
    · obtain ⟨rest, hneed⟩ := hhead
      rw [hneed, List.cons_sublist_cons] at h
      exact (hahead s i rest hs hok.1 hneed).trans h
    · have hother : ∀ rest, need s ≠ i :: rest := fun rest hneed => hhead ⟨rest, hneed⟩
      have hlater : (need s).Sublist labels := by
        cases hneed : need s with
        | nil => exact List.nil_sublist labels
        | cons j rest =>
          rw [hneed] at h
          cases h with
          | cons _ h => exact h
          | cons_cons _ _ => exact absurd hneed (hother rest)
      exact (hwait s i hs hok.1 hother).trans hlater

/-- Enough steps of one kind bring a measure down that no other step raises. -/
theorem run_of_measure {step : σ → ι → σ} {ok : σ → ι → Prop} {Inv : σ → Prop} (m : σ → Nat) (j : ι)
    (hstep : ∀ s i, Inv s → ok s i → Inv (step s i)) (hdown : ∀ s, Inv s → ok s j → m (step s j) ≤ m s - 1)
    (hother : ∀ s i, Inv s → ok s i → m (step s i) ≤ m s) (s : σ) (labels : List ι) (hs : Inv s)
    (hok : Allowed step ok s labels) (h : (List.replicate (m s) j).Sublist labels) : m (run step s labels) = 0 := by
  have hneed := run_of_need (fun s => List.replicate (m s) j) hstep ?_ ?_ s labels hs hok h
  · exact List.replicate_eq_nil_iff _ |>.mp hneed
  · intro s i rest hs hi hrest
    cases hm : m s with
    | zero =>
      rw [hm] at hrest
      cases hrest
    | succ n =>
      rw [hm, List.replicate_succ, List.cons.injEq] at hrest
      obtain ⟨rfl, rfl⟩ := hrest
      have hless := hdown s hs hi
      rw [hm, Nat.add_sub_cancel] at hless
      exact List.replicate_sublist_replicate _ |>.mpr hless
  · intro s i hs hi _
    exact List.replicate_sublist_replicate _ |>.mpr (hother s i hs hi)

/-- A pattern occurs in a longer history if it did before or its last element has just come. -/
theorem sublist_snoc {α : Type} (pattern history : List α) (x y : α) :
    (pattern ++ [x]).Sublist (history ++ [y]) ↔
      (pattern ++ [x]).Sublist history ∨ x = y ∧ pattern.Sublist history := by
  rw [← List.reverse_sublist, List.reverse_concat, List.reverse_concat, List.cons_sublist_cons',
    ← List.reverse_concat, List.reverse_sublist, List.reverse_sublist]

section Assign

variable {α β : Type} [DecidableEq α]

/-- Apply a list of cell writes in order. -/
def assign (f : α → β) (writes : List (α × β)) : α → β :=
  writes.foldl (fun g w => Function.update g w.1 w.2) f

@[simp] theorem assign_nil (f : α → β) : assign f [] = f := rfl
@[simp] theorem assign_cons (f : α → β) (w : α × β) (writes : List (α × β)) :
    assign f (w :: writes) = assign (Function.update f w.1 w.2) writes := rfl

theorem assign_append (f : α → β) (first second : List (α × β)) :
    assign f (first ++ second) = assign (assign f first) second :=
  List.foldl_append

/-- A cell that is not written keeps its value. -/
theorem assign_of_not_mem (f : α → β) (writes : List (α × β)) (a : α)
    (h : a ∉ writes.map Prod.fst) : assign f writes a = f a := by
  induction writes generalizing f with
  | nil => rfl
  | cons w writes ih =>
    simp only [List.map_cons, List.mem_cons, not_or] at h
    rw [assign_cons, ih _ h.2, Function.update_of_ne h.1]

/-- The same writes keep two memories equal where they were. -/
theorem assign_congr (f g : α → β) (writes : List (α × β)) (a : α) (h : f a = g a) :
    assign f writes a = assign g writes a := by
  induction writes generalizing f g with
  | nil => exact h
  | cons w writes ih =>
    rw [assign_cons, assign_cons]
    apply ih
    by_cases ha : a = w.1
    · rw [ha, Function.update_self, Function.update_self]
    · rw [Function.update_of_ne ha, Function.update_of_ne ha, h]

/-- A written cell has the value on which all its writes agree. -/
theorem assign_of_agree (f : α → β) (writes : List (α × β)) (a : α) (b : β)
    (hm : a ∈ writes.map Prod.fst) (hv : ∀ w ∈ writes, w.1 = a → w.2 = b) : assign f writes a = b := by
  induction writes generalizing f with
  | nil => cases hm
  | cons w writes ih =>
    rw [assign_cons]
    by_cases hrest : a ∈ writes.map Prod.fst
    · exact ih _ hrest fun v hvm => hv v (List.mem_cons_of_mem w hvm)
    · have hfirst : w.1 = a := by
        cases List.mem_cons.mp hm with
        | inl he => exact he.symm
        | inr he => exact absurd he hrest
      rw [assign_of_not_mem _ _ _ hrest, ← hfirst, Function.update_self, hv w List.mem_cons_self hfirst]

/-- Writes to distinct cells all survive. -/
theorem assign_of_mem (f : α → β) (writes : List (α × β)) (hd : (writes.map Prod.fst).Nodup)
    (a : α) (b : β) (h : (a, b) ∈ writes) : assign f writes a = b := by
  refine assign_of_agree f writes a b (List.mem_map_of_mem h) fun w hw he => ?_
  have hsame := List.inj_on_of_nodup_map hd hw h he
  rw [hsame]

end Assign

end DataReceiveRelay.Runs
