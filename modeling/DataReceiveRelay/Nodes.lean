import DataReceiveRelay.Overtime
import DataReceiveRelay.Receive

/-!
# Independence of the nodes

The receive thread and the timeout thread write one table in turn: a frame is
stored for the slot that holds its ID, a visit clears the slot it is at. As long
as the ID area stands still, what happens to a node is decided by its own frames
and visits. The node structure that the receive thread carries from frame to
frame is part of the state, so that nothing can leak through it.
-/

namespace DataReceiveRelay.Nodes

open Words Runs Registers Radio DataFrame Receive Overtime

variable {F : Type} [CFloat F]

inductive Event where
  /-- A packet with a good CRC: timer, status registers and buffer. -/
  | frame (now : U32) (value : StatusRegisters) (b : Nat → U8)
  /-- The sweep is at node `i`. -/
  | visit (now overtime : U32) (i : Fin 256)

/-- What the two threads share and what the receive thread carries along. -/
structure State (F : Type) where
  regs : Table
  nodeData : NodeData F

def step (s : State F) : Event → State F
  | .frame now value b =>
    let (_, nodeData, regs) := processPacket now value b s.nodeData s.regs
    ⟨regs, { nodeData with isDataValid := false }⟩
  | .visit now overtime i => { s with regs := visitNode now overtime s.regs i }

/-- A packet of the receive loop is one of the events. -/
theorem packetBranch_step (s : Loop F) (i : Pass) :
    step ⟨s.regs, s.nodeData⟩ (.frame i.now s.status s.rxBuffer) =
      ⟨(packetBranch s i).regs, (packetBranch s i).nodeData⟩ := rfl

/-- The node an event is for; frames that are bad or of unknown origin are for none. -/
def node (regs : Table) : Event → Option Nat
  | .frame _ _ b =>
    if GoodFrame b then
      (List.range nodeCount).find? fun i => calculateDeviceId (fun k => b (2 + k)) == idAt regs i
    else none
  | .visit _ _ i => some i

def SameIds (regs regs' : Table) : Prop := ∀ a, 0x708 ≤ a → a ≤ 0x907 → regs a = regs' a

theorem node_congr (regs regs' : Table) (h : SameIds regs regs') (e : Event) : node regs e = node regs' e := by
  cases e with
  | visit now overtime i => rfl
  | frame now value b =>
    have hsearch : (List.range nodeCount).find? (fun i => calculateDeviceId (fun k => b (2 + k)) == idAt regs i) =
        (List.range nodeCount).find? (fun i => calculateDeviceId (fun k => b (2 + k)) == idAt regs' i) := by
      apply List.find?_congr
      intro i hi
      rw [idAt_congr regs regs' i (List.mem_range.mp hi) h]
    simp only [node, hsearch]

theorem node_frame (regs : Table) (now : U32) (value : StatusRegisters) (b : Nat → U8) (n : Nat) :
    node regs (.frame now value b) = some n ↔
      GoodFrame b ∧ n < nodeCount ∧ IdMatches b regs n ∧ ∀ j < n, ¬IdMatches b regs j := by
  rw [node]
  by_cases hg : GoodFrame b
  · rw [if_pos hg, List.find?_range_eq_some, and_iff_right hg]
    simp only [idMatches_iff, List.mem_range, beq_iff_eq, Bool.not_eq_true', beq_eq_false_iff_ne, ne_eq]
    tauto
  · simp [hg]

section Steps

theorem step_frame (s : State F) (now : U32) (value : StatusRegisters) (b : Nat → U8) :
    (step s (.frame now value b)).regs = receivedTable now value b s.nodeData s.regs := rfl

theorem step_visit (s : State F) (now overtime : U32) (i : Fin 256) :
    (step s (.visit now overtime i)).regs = visitNode now overtime s.regs i := by
  simp only [step]

/-- What an event does to the table, in the three cases. -/
inductive StepCase (s : State F) (e : Event) : Prop where
  | nothing (hnode : node s.regs e = none) (hregs : (step s e).regs = s.regs)
  | stored (now : U32) (value : StatusRegisters) (b : Nat → U8) (n : Nat) (he : e = .frame now value b)
      (hnode : node s.regs e = some n) (hn : n < nodeCount) (hg : GoodFrame b)
      (hregs : (step s e).regs = storeFrame now (found value b s.nodeData n) s.regs)
  | visited (now overtime : U32) (i : Fin 256) (he : e = .visit now overtime i)
      (hregs : (step s e).regs = visitNode now overtime s.regs i)

theorem step_cases (s : State F) (e : Event) : StepCase s e := by
  cases e with
  | visit now overtime i => exact .visited now overtime i rfl (step_visit s now overtime i)
  | frame now value b =>
    cases hnode : node s.regs (.frame now value b) with
    | none =>
      refine .nothing hnode ?_
      rw [step_frame]
      apply receivedTable_other
      rintro ⟨hg, hex⟩
      obtain ⟨n, hleast⟩ := exists_least_match b s.regs hex
      have hsome := (node_frame s.regs now value b n).mpr ⟨hg, hleast⟩
      rw [hnode] at hsome
      cases hsome
    | some n =>
      obtain ⟨hg, hn, hm, hleast⟩ := (node_frame s.regs now value b n).mp hnode
      refine .stored now value b n rfl hnode hn hg ?_
      rw [step_frame]
      exact receivedTable_known now value b s.nodeData s.regs hg n hn hm hleast

theorem node_lt (regs : Table) (e : Event) (n : Nat) (h : node regs e = some n) : n < nodeCount := by
  cases e with
  | frame now value b => exact ((node_frame regs now value b n).mp h).2.1
  | visit now overtime i =>
    cases h
    exact i.isLt

/-- A visit writes nothing but the registers of its node. -/
theorem visitNode_other (now overtime : U32) (regs : Table) (i a : Nat) (ha : a ∉ nodeRegisters i) :
    visitNode now overtime regs i a = regs a := by
  rw [visitNode]
  split
  · rw [clearNode_apply, if_neg ha]
  · rfl

/-- An event writes nothing but the registers of its node. -/
theorem step_other (s : State F) (e : Event) (a : Nat) (h : ∀ n, node s.regs e = some n → a ∉ nodeRegisters n) :
    (step s e).regs a = s.regs a := by
  cases step_cases s e with
  | nothing hnode hregs => rw [hregs]
  | stored now value b n he hnode hn hg hregs =>
    rw [hregs]
    exact storeFrame_other _ _ _ n (found_valid _ _ _ hg n) (found_number _ _ _ n hn) a (h n hnode)
  | visited now overtime i he hregs =>
    subst he
    rw [hregs]
    exact visitNode_other now overtime s.regs i a (h i rfl)

/-- No event touches the ID area. -/
theorem step_ids (s : State F) (e : Event) : SameIds (step s e).regs s.regs := by
  intro a hlo hhi
  apply step_other
  intro n hnode ha
  have hout := nodeRegisters_not_id n a (node_lt s.regs e n hnode) ha
  omega

theorem run_visits (s : State F) (now overtime : U32) (visits : List (Fin 256)) :
    (run step s (visits.map (.visit now overtime))).regs =
      (visits.map Fin.val).foldl (visitNode now overtime) s.regs := by
  induction visits generalizing s with
  | nil => rfl
  | cons i visits ih =>
    rw [List.map_cons, run_cons, ih, step_visit, List.map_cons, List.foldl_cons]

/-- A pass of the timeout thread is a run of visits. -/
theorem sweep_run (s : State F) (now overtime : U32) :
    sweep now overtime s.regs = (run step s ((List.finRange 256).map (.visit now overtime))).regs := by
  rw [run_visits, sweep, nodeCount, List.map_coe_finRange_eq_range]

/-- A good frame fills in the whole node structure; nothing of the last frame is stored again. -/
theorem found_fresh (value : StatusRegisters) (b : Nat → U8) (nodeData nodeData' : NodeData F) (hg : GoodFrame b)
    (n : Nat) : found value b nodeData n = found value b nodeData' n := by
  rw [found, found, analysed_good value b nodeData hg, analysed_good value b nodeData' hg]
  rfl

theorem storeFrame_agree (now : U32) (nodeData : NodeData F) (regs regs' : Table) (n : Nat)
    (hv : nodeData.isDataValid = true) (hn : nodeData.deviceNumber.toNat = n)
    (h : ∀ a ∈ nodeRegisters n, regs a = regs' a) (a : Nat) (ha : a ∈ nodeRegisters n) :
    storeFrame now nodeData regs a = storeFrame now nodeData regs' a := by
  have hwrites : frameWrites now nodeData regs n = frameWrites now nodeData regs' n := by
    simp only [frameWrites, launchAt_congr regs regs' n h]
  rw [storeFrame_eq now nodeData regs n hv hn, storeFrame_eq now nodeData regs' n hv hn, hwrites]
  exact assign_congr regs regs' _ a (h a ha)

theorem visitNode_agree (now overtime : U32) (regs regs' : Table) (n : Nat)
    (h : ∀ a ∈ nodeRegisters n, regs a = regs' a) (a : Nat) (ha : a ∈ nodeRegisters n) :
    visitNode now overtime regs n a = visitNode now overtime regs' n a := by
  have htest : timedOut now overtime regs n = timedOut now overtime regs' n := by
    rw [timedOut, timedOut, receiveTimeAt_congr regs regs' n h]
  rw [visitNode, visitNode, htest]
  split
  · rw [clearNode_apply, clearNode_apply, if_pos ha, if_pos ha]
  · exact h a ha

/-- Tables that agree on a node still agree on it after one of its events. -/
theorem step_agree (s t : State F) (e : Event) (n : Nat) (hids : SameIds s.regs t.regs)
    (h : ∀ a ∈ nodeRegisters n, s.regs a = t.regs a) (he : node s.regs e = some n) :
    ∀ a ∈ nodeRegisters n, (step s e).regs a = (step t e).regs a := by
  intro a ha
  cases e with
  | visit now overtime i =>
    obtain rfl : i.val = n := Option.some.inj he
    rw [step_visit, step_visit]
    exact visitNode_agree now overtime s.regs t.regs i h a ha
  | frame now value b =>
    obtain ⟨hg, hn, hm, hleast⟩ := (node_frame s.regs now value b n).mp he
    obtain ⟨-, -, hm', hleast'⟩ := (node_frame t.regs now value b n).mp (node_congr s.regs t.regs hids _ ▸ he)
    rw [step_frame, step_frame, receivedTable_known _ _ _ _ _ hg n hn hm hleast,
      receivedTable_known _ _ _ _ _ hg n hn hm' hleast', found_fresh value b t.nodeData s.nodeData hg n]
    exact storeFrame_agree now _ s.regs t.regs n (found_valid _ _ _ hg n) (found_number _ _ _ n hn) h a ha

end Steps

section Runs

/-- The event is for node `n`. -/
def concerns (regs : Table) (n : Nat) (e : Event) : Bool := node regs e == some n

/-- Two states with the given ID area that look the same to node `n`. -/
structure Agree (ids : Table) (n : Nat) (s t : State F) : Prop where
  left : SameIds s.regs ids
  right : SameIds t.regs ids
  data : ∀ a ∈ nodeRegisters n, s.regs a = t.regs a

theorem SameIds.trans {regs regs' regs'' : Table} (h : SameIds regs regs') (h' : SameIds regs' regs'') :
    SameIds regs regs'' := fun a hlo hhi => (h a hlo hhi).trans (h' a hlo hhi)

theorem SameIds.symm {regs regs' : Table} (h : SameIds regs regs') : SameIds regs' regs :=
  fun a hlo hhi => (h a hlo hhi).symm

theorem agree_seen (ids : Table) (n : Nat) (s t : State F) (e : Event) (h : Agree ids n s t)
    (he : concerns ids n e = true) : Agree ids n (step s e) (step t e) := by
  have hnode : node s.regs e = some n := by
    rw [node_congr s.regs ids h.left]
    exact beq_iff_eq.mp he
  exact ⟨(step_ids s e).trans h.left, (step_ids t e).trans h.right,
    step_agree s t e n (h.left.trans h.right.symm) h.data hnode⟩

theorem agree_unseen (ids : Table) (n : Nat) (hn : n < nodeCount) (s t : State F) (e : Event) (h : Agree ids n s t)
    (he : concerns ids n e = false) : Agree ids n (step s e) t := by
  refine ⟨(step_ids s e).trans h.left, h.right, ?_⟩
  intro a ha
  rw [step_other s e a, h.data a ha]
  intro m hm
  apply nodeRegisters_disjoint n m a hn (node_lt s.regs e m hm) _ ha
  rintro rfl
  rw [node_congr s.regs ids h.left] at hm
  rw [concerns, hm] at he
  simp at he

/-- Only a node's own events count for it. -/
theorem run_agree (n : Nat) (hn : n < nodeCount) (s t : State F) (hids : SameIds t.regs s.regs)
    (h : ∀ a ∈ nodeRegisters n, t.regs a = s.regs a) (events events' : List Event)
    (hevents : events'.filter (concerns s.regs n) = events.filter (concerns s.regs n)) :
    ∀ a ∈ nodeRegisters n, (run step t events').regs a = (run step s events).regs a := by
  have hself : Agree s.regs n s s := ⟨fun _ _ _ => rfl, fun _ _ _ => rfl, fun _ _ => rfl⟩
  have hother : Agree s.regs n t s := ⟨hids, fun _ _ _ => rfl, h⟩
  have hs := run_filter (agree_seen s.regs n) (agree_unseen s.regs n hn) s s events hself
  have ht := run_filter (agree_seen s.regs n) (agree_unseen s.regs n hn) t s events' hother
  intro a ha
  rw [ht.data a ha, hevents, hs.data a ha]

/-- Registers that belong to no node keep their value. -/
theorem run_outside (s : State F) (events : List Event) (a : Nat) (ha : ∀ n < nodeCount, a ∉ nodeRegisters n) :
    (run step s events).regs a = s.regs a := by
  have hstep (t : State F) (e : Event) (ht : t.regs a = s.regs a) : (step t e).regs a = s.regs a := by
    rw [step_other t e a (fun n hn => ha n (node_lt t.regs e n hn)), ht]
  exact invariant hstep s events rfl

/-- Events of different nodes leave each node the same history in either order. -/
theorem filter_swap (regs : Table) (n : Nat) (first rest : List Event) (e₁ e₂ : Event)
    (h : node regs e₁ ≠ node regs e₂) :
    (first ++ e₂ :: e₁ :: rest).filter (concerns regs n) = (first ++ e₁ :: e₂ :: rest).filter (concerns regs n) := by
  rw [List.filter_append, List.filter_append]
  congr 1
  by_cases h₁ : node regs e₁ = some n
  · have h₂ : node regs e₂ ≠ some n := fun h₂ => h (h₁.trans h₂.symm)
    simp [concerns, h₁, h₂]
  · simp [List.filter_cons, concerns, h₁]

/-- With a fixed ID table a node's registers depend on their first values and on the node's own events, and
neighbouring events of different nodes commute. -/
theorem nodes_do_not_interfere (s : State F) :
    (∀ n < 256, ∀ t : State F, (∀ a, 0x708 ≤ a → a ≤ 0x907 → t.regs a = s.regs a) →
      (∀ a ∈ nodeRegisters n, t.regs a = s.regs a) → ∀ events events' : List Event,
        events'.filter (concerns s.regs n) = events.filter (concerns s.regs n) →
        ∀ a ∈ nodeRegisters n, (run step t events').regs a = (run step s events).regs a) ∧
    (∀ (first rest : List Event) (e₁ e₂ : Event), node s.regs e₁ ≠ node s.regs e₂ →
      (run step s (first ++ e₂ :: e₁ :: rest)).regs = (run step s (first ++ e₁ :: e₂ :: rest)).regs) := by
  refine ⟨fun n hn t hids h events events' hevents => run_agree n hn s t hids h events events' hevents, ?_⟩
  intro first rest e₁ e₂ hne
  funext a
  by_cases ha : ∃ n < nodeCount, a ∈ nodeRegisters n
  · obtain ⟨n, hn, ha⟩ := ha
    exact run_agree n hn s s (fun _ _ _ => rfl) (fun _ _ => rfl) _ _ (filter_swap s.regs n first rest e₁ e₂ hne) a ha
  · have hout : ∀ n < nodeCount, a ∉ nodeRegisters n := fun n hn hmem => ha ⟨n, hn, hmem⟩
    rw [run_outside s _ a hout, run_outside s _ a hout]

end Runs

end DataReceiveRelay.Nodes
