import DataReceiveRelay.Overtime

/-!
# Node records under both threads

The receive thread stores a frame in five steps. The timeout thread visits a
node in two, a test and, for a node that timed out, a clear. Both have the same
priority and no lock, so their steps interleave freely, also with the timer.
`stored` keeps what the most recent frame of each node has written.
-/

namespace DataReceiveRelay.Records

open Words Runs Registers DataFrame Overtime

set_option maxRecDepth 4000

variable {F : Type} [CFloat F]

/-- The five stores in the order of the receive loop. -/
def storeNumber (now : U32) (nodeData : NodeData F) : Nat → Table → Table
  | 0 => saveTemperature nodeData
  | 1 => saveVoltage nodeData
  | 2 => saveSignalStrength nodeData
  | 3 => saveLaunchNumber nodeData
  | _ => saveReceiveTime now nodeData

/-- The registers each store assigns. -/
def storeCells (n : Nat) : Nat → List Nat
  | 0 => [temperatureFirstAddress + n]
  | 1 => [voltageFirstAddress + n]
  | 2 => [nodeStatusFirstAddress + 2 + 3 * n]
  | 3 => [launchNumberFiratAddress + 2 * n, launchNumberFiratAddress + 1 + 2 * n]
  | _ => [receivingMomentFiratAddress + 2 * n, receivingMomentFiratAddress + 1 + 2 * n]

/-- The receive thread, with the number of stores already made. -/
inductive Receiver (F : Type) where
  | idle
  | storing (f : Frame F) (done : Nat)

/-- The timeout thread at its visit of node `i`. -/
inductive Sweeper where
  | test (i : Nat)
  | clear (i : Nat)

structure State (F : Type) where
  timer : U32
  regs : Table
  receiver : Receiver F
  sweeper : Sweeper
  stored : Table

inductive Label (F : Type) where
  | tick
  | frame (f : Frame F)
  | store
  | sweep

def storeStep (s : State F) : State F :=
  match s.receiver with
  | .idle => s
  | .storing f done =>
    let regs := storeNumber s.timer f.nodeData done s.regs
    { s with regs := regs,
             stored := fun a => if a ∈ storeCells f.node done then regs a else s.stored a,
             receiver := if done < 4 then .storing f (done + 1) else .idle }

def nextNode (i : Nat) : Nat := if i + 1 < nodeCount then i + 1 else 0

def sweepStep (overtime : U32) (s : State F) : State F :=
  match s.sweeper with
  | .test i =>
    if timedOut s.timer overtime s.regs i then { s with sweeper := .clear i }
    else { s with sweeper := .test (nextNode i) }
  | .clear i => { s with regs := clearNode i s.regs, sweeper := .test (nextNode i) }

/-- A new frame is taken up when the receive thread is done with the last one. -/
def frameStep (s : State F) (f : Frame F) : State F :=
  match s.receiver with
  | .idle => { s with receiver := .storing f 0 }
  | .storing _ _ => s

def step (overtime : U32) (s : State F) : Label F → State F
  | .tick => { s with timer := nodeOvertimeTiming s.timer }
  | .frame f => frameStep s f
  | .store => storeStep s
  | .sweep => sweepStep overtime s

def start : State F := ⟨0#32, zeroTable, .idle, .test 0, zeroTable⟩

/-- The receive thread has made some but not all stores of a frame for node `n`. -/
def Storing (s : State F) (n : Nat) : Prop :=
  match s.receiver with
  | .idle => False
  | .storing f done => f.node = n ∧ 0 < done

instance (s : State F) (n : Nat) : Decidable (Storing s n) :=
  match h : s.receiver with
  | .idle => isFalse (by simp [Storing, h])
  | .storing f done => decidable_of_iff (f.node = n ∧ 0 < done) (by simp [Storing, h])

/-- All seven registers are from the most recent frame, or all are zero. -/
def Coherent (s : State F) (n : Nat) : Prop :=
  (∀ a ∈ nodeRegisters n, s.regs a = s.stored a) ∨ ∀ a ∈ nodeRegisters n, s.regs a = 0#16

/-- No node is cleared in the middle of its stores. -/
def undisturbed (s : State F) : Label F → Prop
  | .sweep =>
    match s.sweeper with
    | .test _ => True
    | .clear i => ¬Storing s i
  | _ => True

instance (s : State F) (i : Label F) : Decidable (undisturbed s i) :=
  match i with
  | .tick => isTrue trivial
  | .frame _ => isTrue trivial
  | .store => isTrue trivial
  | .sweep =>
    match h : s.sweeper with
    | .test _ => isTrue (by simp [undisturbed, h])
    | .clear i => decidable_of_iff (¬Storing s i) (by simp [undisturbed, h])

/-- Run back to back, the five stores are the atomic one. -/
theorem stores_eq_storeFrame (now : U32) (nodeData : NodeData F) (regs : Table) :
    (List.range 5).foldl (fun regs k => storeNumber now nodeData k regs) regs = storeFrame now nodeData regs :=
  rfl

theorem mem_nodeRegisters_iff (n a : Nat) : a ∈ nodeRegisters n ↔ ∃ k < 5, a ∈ storeCells n k := by
  constructor
  · intro ha
    simp only [nodeRegisters, List.mem_cons, List.not_mem_nil, or_false] at ha
    rcases ha with h | h | h | h | h | h | h
    · exact ⟨0, by omega, by simp [storeCells, h]⟩
    · exact ⟨1, by omega, by simp [storeCells, h]⟩
    · exact ⟨3, by omega, by simp [storeCells, h]⟩
    · exact ⟨3, by omega, by simp [storeCells, h]⟩
    · exact ⟨2, by omega, by simp [storeCells, h]⟩
    · exact ⟨4, by omega, by simp [storeCells, h]⟩
    · exact ⟨4, by omega, by simp [storeCells, h]⟩
  · rintro ⟨k, hk, ha⟩
    interval_cases k <;> simp only [storeCells, List.mem_cons, List.not_mem_nil, or_false] at ha <;>
      simp only [nodeRegisters, List.mem_cons] <;> tauto

/-- Each store assigns its own cells only. -/
theorem storeNumber_other (now : U32) (f : Frame F) (k : Nat) (hk : k < 5) (regs : Table) (a : Nat)
    (ha : a ∉ storeCells f.node k) : storeNumber now f.nodeData k regs a = regs a := by
  interval_cases k
  · simp only [storeNumber, saveTemperature, f.valid, if_true]
    exact assign_of_not_mem _ _ _ ha
  · simp only [storeNumber, saveVoltage, f.valid, if_true]
    exact assign_of_not_mem _ _ _ ha
  · simp only [storeNumber, saveSignalStrength, f.valid, if_true]
    exact assign_of_not_mem _ _ _ ha
  · simp only [storeNumber, saveLaunchNumber, f.valid, if_true]
    exact assign_of_not_mem _ _ _ ha
  · simp only [storeNumber, saveReceiveTime, f.valid, if_true]
    exact assign_of_not_mem _ _ _ ha

/-- The cells of the stores already made agree with the frame. -/
def Partly (s : State F) (n done : Nat) : Prop :=
  ∀ k < done, ∀ a ∈ storeCells n k, s.regs a = s.stored a

structure Inv (s : State F) : Prop where
  visit : ∀ i, s.sweeper = .test i ∨ s.sweeper = .clear i → i < nodeCount
  count : ∀ f done, s.receiver = .storing f done → done < 5
  partly : ∀ f done, s.receiver = .storing f done → Partly s f.node done
  settled : ∀ n < nodeCount, ¬Storing s n → Coherent s n

omit [CFloat F] in
theorem inv_start : Inv (start : State F) := by
  refine ⟨?_, ?_, ?_, fun n _ _ => Or.inl fun a _ => rfl⟩
  · rintro i (h | h)
    · obtain rfl : 0 = i := by simpa [start] using h
      decide
    · simp [start] at h
  · intro f done h
    simp [start] at h
  · intro f done h
    simp [start] at h

theorem nextNode_lt (i : Nat) : nextNode i < nodeCount := by
  unfold nextNode
  split <;> simp_all [nodeCount]

omit [CFloat F] in
/-- A step that leaves a node's cells alone leaves its record coherent. -/
theorem Coherent.frame {s t : State F} {n : Nat} (h : Coherent s n)
    (hregs : ∀ a ∈ nodeRegisters n, t.regs a = s.regs a)
    (hstored : ∀ a ∈ nodeRegisters n, t.stored a = s.stored a) : Coherent t n := by
  cases h with
  | inl h => exact Or.inl fun a ha => by rw [hregs a ha, hstored a ha, h a ha]
  | inr h => exact Or.inr fun a ha => by rw [hregs a ha, h a ha]

section Store

variable (s : State F) (f : Frame F) (done : Nat) (hr : s.receiver = .storing f done) (hd : done < 5)

include hr hd

/-- Outside the cells of the store being made nothing changes. -/
theorem storeStep_other (a : Nat) (ha : a ∉ storeCells f.node done) :
    (storeStep s).regs a = s.regs a ∧ (storeStep s).stored a = s.stored a := by
  simp only [storeStep, hr, if_neg ha, and_true]
  exact storeNumber_other s.timer f done hd s.regs a ha

theorem storeStep_partly (h : Partly s f.node done) : Partly (storeStep s) f.node (done + 1) := by
  intro k hk a ha
  by_cases hcell : a ∈ storeCells f.node done
  · simp only [storeStep, hr, if_pos hcell]
  · obtain ⟨hregs, hstored⟩ := storeStep_other s f done hr hd a hcell
    have hlt : k < done := by
      have hne : k ≠ done := by
        rintro rfl
        exact hcell ha
      omega
    rw [hregs, hstored, h k hlt a ha]

theorem inv_store (h : Inv s) : Inv (storeStep s) := by
  have hpartly := storeStep_partly s f done hr hd (h.partly f done hr)
  have hreceiver : (storeStep s).receiver = if done < 4 then .storing f (done + 1) else .idle := by
    simp only [storeStep, hr]
  have hsweeper : (storeStep s).sweeper = s.sweeper := by
    simp only [storeStep, hr]
  refine ⟨?_, ?_, ?_, ?_⟩
  · rw [hsweeper]
    exact h.visit
  · intro g k hk
    rw [hreceiver] at hk
    split at hk
    · cases hk
      omega
    · cases hk
  · intro g k hk
    rw [hreceiver] at hk
    split at hk
    · cases hk
      exact hpartly
    · cases hk
  · intro n hn hnot
    by_cases hnf : f.node = n
    · subst hnf
      have hlast : done = 4 := by
        by_contra hne
        apply hnot
        simp only [Storing, hreceiver, if_pos (show done < 4 by omega)]
        exact ⟨trivial, by omega⟩
      subst hlast
      refine Or.inl fun a ha => ?_
      obtain ⟨k, hk, hcell⟩ := (mem_nodeRegisters_iff _ _).mp ha
      exact hpartly k hk a hcell
    · have hbefore : ¬Storing s n := by
        simp only [Storing, hr]
        exact fun hc => hnf hc.1
      have hother : ∀ a ∈ nodeRegisters n, a ∉ storeCells f.node done := by
        intro a ha hcell
        exact nodeRegisters_disjoint n f.node a hn f.node_lt (Ne.symm hnf) ha
          ((mem_nodeRegisters_iff _ _).mpr ⟨done, hd, hcell⟩)
      exact (h.settled n hn hbefore).frame (fun a ha => (storeStep_other s f done hr hd a (hother a ha)).1)
        (fun a ha => (storeStep_other s f done hr hd a (hother a ha)).2)

end Store

omit [CFloat F] in
theorem inv_frame_step (s : State F) (f : Frame F) (h : Inv s) : Inv (frameStep s f) := by
  cases hr : s.receiver with
  | storing g done => simpa only [frameStep, hr] using h
  | idle =>
    simp only [frameStep, hr]
    refine ⟨h.visit, ?_, ?_, ?_⟩
    · intro g k hk
      cases hk
      omega
    · intro g k hk
      cases hk
      intro j hj
      omega
    · intro n hn _
      exact (h.settled n hn (by simp [Storing, hr])).frame (fun _ _ => rfl) (fun _ _ => rfl)

omit [CFloat F] in
/-- Moving the timeout thread on touches no record. -/
theorem inv_visit (s : State F) (v : Sweeper) (h : Inv s) (hv : ∀ i, v = .test i ∨ v = .clear i → i < nodeCount) :
    Inv { s with sweeper := v } :=
  ⟨hv, h.count, h.partly, h.settled⟩

omit [CFloat F] in
theorem inv_clear (s : State F) (i : Nat) (h : Inv s) (hi : i < nodeCount) (hnot : ¬Storing s i) :
    Inv { s with regs := clearNode i s.regs } := by
  have hkeep (a : Nat) (ha : a ∉ nodeRegisters i) : clearNode i s.regs a = s.regs a := by
    rw [clearNode_apply, if_neg ha]
  refine ⟨h.visit, h.count, ?_, ?_⟩
  · intro f done hr k hk a ha
    have hne : f.node ≠ i := by
      rintro rfl
      apply hnot
      simp only [Storing, show s.receiver = .storing f done from hr]
      exact ⟨trivial, by omega⟩
    have hlt : k < 5 := by
      have := h.count f done hr
      omega
    have hother := nodeRegisters_disjoint f.node i a f.node_lt hi hne
      ((mem_nodeRegisters_iff _ _).mpr ⟨k, hlt, ha⟩)
    exact (hkeep a hother).trans (h.partly f done hr k hk a ha)
  · intro n hn hsettled
    by_cases hni : n = i
    · subst hni
      exact Or.inr fun a ha => (clearNode_apply n s.regs a).trans (if_pos ha)
    · exact (h.settled n hn hsettled).frame
        (fun a ha => hkeep a (nodeRegisters_disjoint n i a hn hi hni ha)) (fun _ _ => rfl)

theorem inv_step (overtime : U32) (s : State F) (l : Label F) (h : Inv s) (hok : undisturbed s l) :
    Inv (step overtime s l) := by
  cases l with
  | tick => exact ⟨h.visit, h.count, h.partly, h.settled⟩
  | frame f => exact inv_frame_step s f h
  | store =>
    cases hr : s.receiver with
    | idle => simpa only [step, storeStep, hr] using h
    | storing f done => exact inv_store s f done hr (h.count f done hr) h
  | sweep =>
    have hnext (i : Nat) : ∀ j, Sweeper.test (nextNode i) = .test j ∨ Sweeper.test (nextNode i) = .clear j →
        j < nodeCount := by
      rintro j (hj | hj)
      · cases hj
        exact nextNode_lt i
      · cases hj
    cases hs : s.sweeper with
    | test i =>
      simp only [step, sweepStep, hs]
      split
      · refine inv_visit s _ h ?_
        rintro j (hj | hj)
        · cases hj
        · cases hj
          exact h.visit i (Or.inl hs)
      · exact inv_visit s _ h (hnext i)
    | clear i =>
      simp only [undisturbed, hs] at hok
      simp only [step, sweepStep, hs]
      exact inv_visit _ _ (inv_clear s i h (h.visit i (Or.inr hs)) hok) (hnext i)

/-- Every run in which no node is cleared between its first and last store keeps each node's record
coherent, in every state in which no frame is half stored. -/
theorem records_coherent (overtime : U32) (labels : List (Label F))
    (h : Allowed (step overtime) undisturbed start labels) (reached : List (Label F)) (hr : reached <+: labels)
    (hidle : ∀ n, ¬Storing (run (step overtime) start reached) n) (n : Nat) (hn : n < nodeCount) :
    Coherent (run (step overtime) start reached) n := by
  obtain ⟨rest, rfl⟩ := hr
  rw [allowed_append] at h
  exact (invariant_of_allowed (inv_step overtime) _ _ inv_start h.1).settled n hn (hidle n)

/-- One frame for node 0, stored without interruption. -/
def storeOnce : List (Label Float) := [.frame frameZero, .store, .store, .store, .store, .store]

/-- A valid frame for node 1. -/
def frameOne : Frame Float := ⟨⟨true, 1#32, 0, 0, 1#8, 2#8, 3#8⟩, rfl⟩

/-- A minute after its frame node 0 tests as timed out; it is cleared between the second and the third store of a frame
for node 1. The sweep then tests nodes 1 and 2 between the stores of the next frame for node 0. -/
def clearedBesideStores : List (Label Float) :=
  .tick :: storeOnce ++ List.replicate 60 .tick ++
    [.sweep, .frame frameOne, .store, .store, .sweep, .tick, .store, .store, .store,
      .frame frameZero, .store, .sweep, .store, .store, .tick, .sweep, .store, .store]

/-- Node 0 shows its second frame, node 1 its only one. -/
theorem records_coherent_beside_stores :
    Coherent (run (step 60#32) start clearedBesideStores) 0 ∧ Coherent (run (step 60#32) start clearedBesideStores) 1 :=
  have hallowed : Allowed (step 60#32) undisturbed start clearedBesideStores := by decide
  have hidle : ∀ n, ¬Storing (run (step 60#32) start clearedBesideStores) n := fun _ h => h
  ⟨records_coherent 60#32 clearedBesideStores hallowed _ (List.prefix_refl _) hidle 0 (by decide),
    records_coherent 60#32 clearedBesideStores hallowed _ (List.prefix_refl _) hidle 1 (by decide)⟩

/-- A minute after the first frame node 0 tests as timed out; the clear comes after the third store
of the next frame, which then shows its counter and receive time without its signal strength. -/
def clearedBetweenStores : List (Label Float) :=
  .tick :: storeOnce ++ List.replicate 60 .tick ++
    [.sweep, .frame frameZero, .store, .store, .store, .sweep, .store, .store]

theorem record_torn :
    (∀ n, ¬Storing (run (step 60#32) start clearedBetweenStores) n) ∧
      ¬Coherent (run (step 60#32) start clearedBetweenStores) 0 := by
  have hsignal : (run (step 60#32) start clearedBetweenStores).regs 0x40A = 0#16 := by decide
  have hstored : (run (step 60#32) start clearedBetweenStores).stored 0x40A = 0x100#16 := by decide
  have hlaunch : (run (step 60#32) start clearedBetweenStores).regs 0x208 = 1#16 := by decide
  refine ⟨fun _ h => h, ?_⟩
  rintro (h | h)
  · have hcell := h 0x40A (by decide)
    rw [hsignal, hstored] at hcell
    revert hcell
    decide
  · have hcell := h 0x208 (by decide)
    rw [hlaunch] at hcell
    revert hcell
    decide

end DataReceiveRelay.Records
