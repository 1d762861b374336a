import DataReceiveRelay.DataFrame

/-!
# Node timeouts

The timer counts seconds in 32 bits. The timeout thread visits the 256 nodes in
order; a node whose receive time is zero counts as never received and is
skipped, any other node is cleared once the unsigned difference to the timer
reaches the timeout.
-/

namespace DataReceiveRelay.Overtime

open Words Runs Registers DataFrame

section Sweep

/-- The timer callback. -/
def nodeOvertimeTiming (nodeOvertimeTimerNumber : U32) : U32 := nodeOvertimeTimerNumber + 1#32

/-- `CheckOvertime` with the timer value as its first argument. -/
def checkOvertime (nowTime startTime overtime : U32) : U8 :=
  if nowTime - startTime ≥ overtime then 1#8 else 0#8

/-- The test of one visit: the node has a receive time and it is too old. -/
def timedOut (nowTime overtime : U32) (regs : Table) (i : Nat) : Bool :=
  receiveTimeAt regs i != 0#32 && checkOvertime nowTime (receiveTimeAt regs i) overtime != 0#8

/-- Zero the data of node `i`, in the order of the source. -/
def clearNode (i : Nat) (regs : Table) : Table :=
  assign regs
    [(temperatureFirstAddress + i, 0#16), (voltageFirstAddress + i, 0#16),
      (nodeStatusFirstAddress + 2 + 3 * i, 0#16),
      (launchNumberFiratAddress + 2 * i, 0#16), (launchNumberFiratAddress + 1 + 2 * i, 0#16),
      (receivingMomentFiratAddress + 2 * i, 0#16), (receivingMomentFiratAddress + 1 + 2 * i, 0#16)]

/-- One visit of the timeout thread. -/
def visitNode (nowTime overtime : U32) (regs : Table) (i : Nat) : Table :=
  if timedOut nowTime overtime regs i then clearNode i regs else regs

/-- The 256 visits of one pass, with the timer standing still. -/
def sweep (nowTime overtime : U32) (regs : Table) : Table :=
  (List.range nodeCount).foldl (visitNode nowTime overtime) regs

theorem timedOut_iff (nowTime overtime : U32) (regs : Table) (i : Nat) :
    timedOut nowTime overtime regs i = true ↔
      receiveTimeAt regs i ≠ 0#32 ∧ overtime ≤ nowTime - receiveTimeAt regs i := by
  simp only [timedOut, checkOvertime, Bool.and_eq_true, bne_iff_ne]
  by_cases h : overtime ≤ nowTime - receiveTimeAt regs i <;> simp [h]

/-- A cleared node has zeros in exactly its data registers. -/
theorem clearNode_apply (i : Nat) (regs : Table) (a : Nat) :
    clearNode i regs a = if a ∈ nodeRegisters i then 0#16 else regs a := by
  have hcells : a ∈ nodeRegisters i ↔
      a ∈ [0x008 + i, 0x108 + i, 0x40A + 3 * i, 0x208 + 2 * i, 0x209 + 2 * i, 0xA08 + 2 * i, 0xA09 + 2 * i] := by
    rw [mem_nodeRegisters]
    simp only [List.mem_cons, List.not_mem_nil, or_false]
    omega
  by_cases ha : a ∈ nodeRegisters i
  · rw [if_pos ha]
    exact assign_of_agree _ _ _ _ (hcells.mp ha) (by simp)
  · rw [if_neg ha]
    exact assign_of_not_mem _ _ _ (mt hcells.mpr ha)

theorem receiveTimeAt_congr (regs regs' : Table) (i : Nat) (h : ∀ a ∈ nodeRegisters i, regs a = regs' a) :
    receiveTimeAt regs i = receiveTimeAt regs' i := by
  rw [receiveTimeAt, receiveTimeAt, h _ (by simp [nodeRegisters]), h _ (by simp [nodeRegisters])]

theorem launchAt_congr (regs regs' : Table) (i : Nat) (h : ∀ a ∈ nodeRegisters i, regs a = regs' a) :
    launchAt regs i = launchAt regs' i := by
  rw [launchAt, launchAt, h _ (by simp [nodeRegisters]), h _ (by simp [nodeRegisters])]

theorem record_of_zero (regs : Table) (i : Nat) (h : ∀ a ∈ nodeRegisters i, regs a = 0#16) :
    launchAt regs i = 0#32 ∧ receiveTimeAt regs i = 0#32 := by
  constructor
  · exact (join_eq_zero_iff _ _).mpr ⟨h _ (by simp [nodeRegisters]), h _ (by simp [nodeRegisters])⟩
  · exact (join_eq_zero_iff _ _).mpr ⟨h _ (by simp [nodeRegisters]), h _ (by simp [nodeRegisters])⟩

/-- After `k` visits the first `k` nodes are done and nothing else has changed. -/
theorem visits_apply (nowTime overtime : U32) (regs : Table) (k : Nat) (hk : k ≤ nodeCount) :
    (∀ i < nodeCount, ∀ a ∈ nodeRegisters i, (List.range k).foldl (visitNode nowTime overtime) regs a =
      if i < k ∧ timedOut nowTime overtime regs i = true then 0#16 else regs a) ∧
    (∀ a, (∀ i < nodeCount, a ∉ nodeRegisters i) →
      (List.range k).foldl (visitNode nowTime overtime) regs a = regs a) := by
  induction k with
  | zero => simp
  | succ k ih =>
    obtain ⟨hnodes, hother⟩ := ih (by omega)
    rw [List.range_succ, List.foldl_append, List.foldl_cons, List.foldl_nil]
    generalize hregs : (List.range k).foldl (visitNode nowTime overtime) regs = mid at *
    have htest : timedOut nowTime overtime mid k = timedOut nowTime overtime regs k := by
      have hsame := receiveTimeAt_congr mid regs k fun a ha => by simp [hnodes k (by omega) a ha]
      rw [timedOut, timedOut, hsame]
    have hvisit (a : Nat) : visitNode nowTime overtime mid k a =
        if a ∈ nodeRegisters k ∧ timedOut nowTime overtime regs k = true then 0#16 else mid a := by
      rw [visitNode, htest]
      cases timedOut nowTime overtime regs k with
      | true => simp [clearNode_apply]
      | false => simp
    constructor
    · intro i hi a ha
      rw [hvisit, hnodes i hi a ha]
      by_cases hik : i = k
      · subst hik
        simp [ha]
      · have hd := nodeRegisters_disjoint i k a hi (by omega) hik ha
        simp [hd, show i < k + 1 ↔ i < k by omega]
    · intro a ha
      rw [hvisit, hother a ha]
      simp [ha k (by omega)]

/-- A pass clears exactly the timed-out nodes. -/
theorem sweep_node (nowTime overtime : U32) (regs : Table) (i : Nat) (hi : i < nodeCount) (a : Nat)
    (ha : a ∈ nodeRegisters i) :
    sweep nowTime overtime regs a = if timedOut nowTime overtime regs i = true then 0#16 else regs a := by
  rw [sweep, (visits_apply nowTime overtime regs nodeCount (Nat.le_refl _)).1 i hi a ha]
  simp [hi]

theorem sweep_other (nowTime overtime : U32) (regs : Table) (a : Nat) (ha : ∀ i < nodeCount, a ∉ nodeRegisters i) :
    sweep nowTime overtime regs a = regs a :=
  (visits_apply nowTime overtime regs nodeCount (Nat.le_refl _)).2 a ha

/-- The counter and the receive time of a node after a pass. -/
theorem sweep_record (nowTime overtime : U32) (regs : Table) (i : Nat) (hi : i < nodeCount) :
    (timedOut nowTime overtime regs i = true → launchAt (sweep nowTime overtime regs) i = 0#32 ∧
      receiveTimeAt (sweep nowTime overtime regs) i = 0#32) ∧
    (timedOut nowTime overtime regs i = false → launchAt (sweep nowTime overtime regs) i = launchAt regs i ∧
      receiveTimeAt (sweep nowTime overtime regs) i = receiveTimeAt regs i) := by
  have hcell := sweep_node nowTime overtime regs i hi
  constructor
  · intro ht
    simp only [ht, if_true] at hcell
    exact record_of_zero _ i hcell
  · intro ht
    simp only [ht, Bool.false_eq_true, if_false] at hcell
    exact ⟨launchAt_congr _ _ i hcell, receiveTimeAt_congr _ _ i hcell⟩

/-- The unsigned difference is the true elapsed time, also when the counter has wrapped in between. -/
theorem timedOut_iff_elapsed (nowTime overtime : U32) (regs : Table) (i : Nat) :
    timedOut nowTime overtime regs i = true ↔
      receiveTimeAt regs i ≠ 0#32 ∧ ∃ d < 2 ^ 32,
        nowTime.toNat = ((receiveTimeAt regs i).toNat + d) % 2 ^ 32 ∧ overtime.toNat ≤ d := by
  rw [timedOut_iff, BitVec.le_def, BitVec.toNat_sub]
  have hnow := nowTime.isLt
  have hstart := (receiveTimeAt regs i).isLt
  apply and_congr_right
  intro _
  constructor
  · intro h
    exact ⟨_, Nat.mod_lt _ (by decide), by omega, h⟩
  · rintro ⟨d, hd, helapsed, hle⟩
    omega

/-- A cleared node has no receive time left and any other node is judged as before. -/
theorem timedOut_sweep (nowTime overtime : U32) (regs : Table) (i : Nat) (hi : i < nodeCount) :
    timedOut nowTime overtime (sweep nowTime overtime regs) i = false := by
  obtain ⟨hcleared, hkept⟩ := sweep_record nowTime overtime regs i hi
  rw [Bool.eq_false_iff, ne_eq, timedOut_iff]
  cases h : timedOut nowTime overtime regs i with
  | true =>
    rw [(hcleared h).2]
    exact fun hc => hc.1 rfl
  | false =>
    rw [(hkept h).2, ← timedOut_iff, h]
    exact Bool.false_ne_true

theorem sweep_idempotent (nowTime overtime : U32) (regs : Table) :
    sweep nowTime overtime (sweep nowTime overtime regs) = sweep nowTime overtime regs := by
  funext a
  by_cases h : ∃ i < nodeCount, a ∈ nodeRegisters i
  · obtain ⟨i, hi, ha⟩ := h
    rw [sweep_node nowTime overtime _ i hi a ha, timedOut_sweep nowTime overtime regs i hi]
    exact if_neg Bool.false_ne_true
  · exact sweep_other nowTime overtime _ a fun i hi ha => h ⟨i, hi, ha⟩

/-- One pass clears the seven registers of every node that is too old, leaves everything else, and
has nothing to do a second time. -/
theorem sweep_clears_exactly (nowTime overtime : U32) (regs : Table) :
    (∀ i < 256, ∀ a ∈ [0x008 + i, 0x108 + i, 0x208 + 2 * i, 0x209 + 2 * i, 0x40A + 3 * i,
        0xA08 + 2 * i, 0xA09 + 2 * i],
      (receiveTimeAt regs i ≠ 0#32 ∧ (∃ d < 2 ^ 32, nowTime.toNat = ((receiveTimeAt regs i).toNat + d) % 2 ^ 32 ∧
          overtime.toNat ≤ d) → sweep nowTime overtime regs a = 0#16) ∧
      (¬(receiveTimeAt regs i ≠ 0#32 ∧ ∃ d < 2 ^ 32, nowTime.toNat = ((receiveTimeAt regs i).toNat + d) % 2 ^ 32 ∧
          overtime.toNat ≤ d) → sweep nowTime overtime regs a = regs a)) ∧
    (∀ a, (∀ i < 256, a ∉ nodeRegisters i) → sweep nowTime overtime regs a = regs a) ∧
    sweep nowTime overtime (sweep nowTime overtime regs) = sweep nowTime overtime regs := by
  refine ⟨?_, sweep_other nowTime overtime regs, sweep_idempotent nowTime overtime regs⟩
  intro i hi a ha
  have hcell : a ∈ nodeRegisters i := by
    rw [mem_nodeRegisters]
    simpa only [List.mem_cons, List.not_mem_nil, or_false] using ha
  rw [← timedOut_iff_elapsed, sweep_node nowTime overtime regs i hi a hcell]
  constructor
  · intro h
    exact if_pos h
  · intro h
    exact if_neg h

end Sweep

section Freshness

variable {F : Type} [CFloat F]

/-- A frame that has come to the five stores. -/
structure Frame (F : Type) where
  nodeData : NodeData F
  valid : nodeData.isDataValid = true

def Frame.node (f : Frame F) : Nat := f.nodeData.deviceNumber.toNat

omit [CFloat F] in
theorem Frame.node_lt (f : Frame F) : f.node < nodeCount := f.nodeData.deviceNumber.isLt

inductive Event (F : Type) where
  | tick
  | frame (f : Frame F)
  | sweep

structure Device where
  timer : U32
  regs : Table

def step (overtime : U32) (s : Device) : Event F → Device
  | .tick => { s with timer := nodeOvertimeTiming s.timer }
  | .frame f => { s with regs := storeFrame s.timer f.nodeData s.regs }
  | .sweep => { s with regs := sweep s.timer overtime s.regs }

/-- A table with all data registers zero. -/
def zeroData (regs : Table) : Table :=
  fun a => if (List.range nodeCount).any (fun n => decide (a ∈ nodeRegisters n)) then 0#16 else regs a

def start (regs : Table) : Device := ⟨0#32, zeroData regs⟩

/-- What an observer with an unbounded clock notes down. -/
structure History where
  ticks : Nat
  frames : Nat → Nat
  last : Nat → Option Nat

def History.step (h : History) : Event F → History
  | .tick => { h with ticks := h.ticks + 1 }
  | .frame f =>
    { h with frames := Function.update h.frames f.node (h.frames f.node + 1),
             last := Function.update h.last f.node (some h.ticks) }
  | .sweep => h

def history (events : List (Event F)) : History := run History.step ⟨0, fun _ => 0, fun _ => none⟩ events

/-- A node's registers against its history. A frame of tick 0 leaves receive time 0, so its record is
never cleared and the counter still has all of the node's frames. -/
def Tracks (h : History) (s : Device) (n : Nat) : Prop :=
  match h.last n with
  | none => launchAt s.regs n = 0#32 ∧ h.frames n = 0
  | some t => t ≤ h.ticks ∧
      ((receiveTimeAt s.regs n = BitVec.ofNat 32 t ∧ (t = 0 → launchAt s.regs n = BitVec.ofNat 32 (h.frames n))) ∨
        (t ≠ 0 ∧ launchAt s.regs n = 0#32 ∧ receiveTimeAt s.regs n = 0#32))

structure Inv (h : History) (s : Device) : Prop where
  timer : s.timer = BitVec.ofNat 32 h.ticks
  node : ∀ n < nodeCount, Tracks h s n

theorem inv_start (regs : Table) : Inv ⟨0, fun _ => 0, fun _ => none⟩ (start regs) := by
  refine ⟨rfl, fun n hn => ⟨?_, rfl⟩⟩
  have hzero : ∀ a ∈ nodeRegisters n, (start regs).regs a = 0#16 := by
    intro a ha
    have hany : (List.range nodeCount).any (fun n => decide (a ∈ nodeRegisters n)) = true := by
      rw [List.any_eq_true]
      exact ⟨n, List.mem_range.mpr hn, by simpa using ha⟩
    simp only [start, zeroData, hany, if_true]
  exact (record_of_zero _ n hzero).1

omit [CFloat F] in
theorem inv_tick (h : History) (s : Device) (hi : Inv h s) :
    Inv (h.step (.tick : Event F)) { s with timer := nodeOvertimeTiming s.timer } := by
  refine ⟨?_, ?_⟩
  · rw [nodeOvertimeTiming, hi.timer, History.step, BitVec.ofNat_add]
  · intro n hn
    have hnode := hi.node n hn
    simp only [Tracks, History.step] at hnode ⊢
    cases hl : h.last n with
    | none => simpa only [hl] using hnode
    | some t =>
      simp only [hl] at hnode
      exact ⟨by omega, hnode.2⟩

theorem inv_frame (h : History) (s : Device) (f : Frame F) (hi : Inv h s) :
    Inv (h.step (.frame f)) { s with regs := storeFrame s.timer f.nodeData s.regs } := by
  refine ⟨hi.timer, ?_⟩
  intro n hn
  have hnode := hi.node n hn
  simp only [Tracks, History.step] at hnode ⊢
  by_cases hnf : n = f.node
  · subst hnf
    obtain ⟨-, -, -, hlaunch, htime⟩ := storeFrame_values s.timer f.nodeData s.regs f.node f.valid rfl
    simp only [Function.update_self, hlaunch, htime]
    refine ⟨Nat.le_refl _, Or.inl ⟨hi.timer, ?_⟩⟩
    intro hzero
    -- No tick yet, so nothing has been cleared and the old counter is exact.
    have hexact : launchAt s.regs f.node = BitVec.ofNat 32 (h.frames f.node) := by
      cases hl : h.last f.node with
      | none =>
        simp only [hl] at hnode
        rw [hnode.1, hnode.2]
      | some t =>
        simp only [hl] at hnode
        obtain ⟨hle, hrecord⟩ := hnode
        obtain rfl : t = 0 := by omega
        cases hrecord with
        | inl hrecord => exact hrecord.2 rfl
        | inr hcleared => exact absurd rfl hcleared.1
    rw [hexact, BitVec.ofNat_add]
  · have hsame : ∀ a ∈ nodeRegisters n, storeFrame s.timer f.nodeData s.regs a = s.regs a := fun a ha =>
      storeFrame_other s.timer f.nodeData s.regs f.node f.valid rfl a
        (nodeRegisters_disjoint n f.node a hn f.node_lt hnf ha)
    rw [launchAt_congr _ _ n hsame, receiveTimeAt_congr _ _ n hsame, Function.update_of_ne hnf,
      Function.update_of_ne hnf]
    exact hnode

omit [CFloat F] in
theorem inv_sweep (overtime : U32) (h : History) (s : Device) (hi : Inv h s) :
    Inv (h.step (.sweep : Event F)) { s with regs := sweep s.timer overtime s.regs } := by
  refine ⟨hi.timer, ?_⟩
  intro n hn
  have hnode := hi.node n hn
  obtain ⟨hcleared, hkept⟩ := sweep_record s.timer overtime s.regs n hn
  simp only [Tracks, History.step] at hnode ⊢
  cases ht : timedOut s.timer overtime s.regs n with
  | false => rwa [(hkept ht).1, (hkept ht).2]
  | true =>
    obtain ⟨hlaunch, htime⟩ := hcleared ht
    have hne := ((timedOut_iff _ _ _ _).mp ht).1
    rw [hlaunch, htime]
    cases hl : h.last n with
    | none =>
      simp only [hl] at hnode
      exact ⟨rfl, hnode.2⟩
    | some t =>
      simp only [hl] at hnode
      refine ⟨hnode.1, Or.inr ⟨?_, rfl, rfl⟩⟩
      rintro rfl
      cases hnode.2 with
      | inl hrecord => exact hne hrecord.1
      | inr hzero => exact hzero.1 rfl

theorem inv_run (overtime : U32) (regs : Table) (events : List (Event F)) :
    Inv (history events) (run (step overtime) (start regs) events) := by
  induction events using List.reverseRecOn with
  | nil => exact inv_start regs
  | append_singleton events e ih =>
    rw [history, run_append, run_append]
    cases e with
    | tick => exact inv_tick (F := F) _ _ ih
    | frame f => exact inv_frame _ _ f ih
    | sweep => exact inv_sweep (F := F) overtime _ _ ih

/-- Every node that shows a launch count has been heard of within the timeout. -/
def Fresh (overtime : U32) (h : History) (regs : Table) : Prop :=
  ∀ n < nodeCount, launchAt regs n ≠ 0#32 →
    ∃ t, h.last n = some t ∧ t ≤ h.ticks ∧ h.ticks - t < overtime.toNat

/-- A node heard of at tick 0 only is skipped by every sweep. -/
theorem launch_after_sweep_of_zero (overtime : U32) (regs : Table) (events : List (Event F)) (n : Nat)
    (hn : n < nodeCount) (hl : (history events).last n = some 0) :
    launchAt (run (step overtime) (start regs) (events ++ [.sweep])).regs n =
      BitVec.ofNat 32 ((history events).frames n) := by
  have hnode := (inv_run overtime regs events).node n hn
  simp only [Tracks, hl, ne_eq, not_true_eq_false, false_and, or_false, true_implies] at hnode
  obtain ⟨-, htime, hlaunch⟩ := hnode
  rw [run_append, run_cons, run_nil]
  generalize run (step overtime) (start regs) events = s at *
  have hskip : timedOut s.timer overtime s.regs n = false := by
    rw [Bool.eq_false_iff, ne_eq, timedOut_iff]
    exact fun hc => hc.1 htime
  have hkept := (sweep_record s.timer overtime s.regs n hn).2 hskip
  simp only [step]
  rw [hkept.1, hlaunch]

/-- Any other node that still shows a count is younger than the timeout. -/
theorem young_after_sweep (overtime : U32) (regs : Table) (events : List (Event F)) (n : Nat)
    (hb : (history events).ticks < 2 ^ 32) (hn : n < nodeCount) (hz : (history events).last n ≠ some 0)
    (hcount : launchAt (run (step overtime) (start regs) (events ++ [.sweep])).regs n ≠ 0#32) :
    ∃ t, (history events).last n = some t ∧ t ≤ (history events).ticks ∧
      (history events).ticks - t < overtime.toNat := by
  obtain ⟨htimer, hnodes⟩ := inv_run overtime regs events
  have hnode := hnodes n hn
  rw [run_append, run_cons, run_nil] at hcount
  generalize run (step overtime) (start regs) events = s at *
  generalize history events = h at *
  simp only [step] at hcount
  obtain ⟨hcleared, hkept⟩ := sweep_record s.timer overtime s.regs n hn
  have hstay : timedOut s.timer overtime s.regs n = false := by
    rw [Bool.eq_false_iff]
    exact fun ht => hcount (hcleared ht).1
  rw [(hkept hstay).1] at hcount
  simp only [Tracks] at hnode
  cases hl : h.last n with
  | none =>
    simp only [hl] at hnode
    exact absurd hnode.1 hcount
  | some t =>
    simp only [hl] at hnode
    obtain ⟨hle, ⟨htime, -⟩ | ⟨-, hlaunch, -⟩⟩ := hnode
    · refine ⟨t, rfl, hle, ?_⟩
      have hpos : t ≠ 0 := by
        rintro rfl
        exact hz hl
      have hne : receiveTimeAt s.regs n ≠ 0#32 := by
        rw [htime, ne_eq, ← BitVec.toNat_inj]
        simp only [BitVec.toNat_ofNat]
        omega
      have hyoung : ¬overtime ≤ s.timer - receiveTimeAt s.regs n := by
        intro hold
        rw [(timedOut_iff _ _ _ _).mpr ⟨hne, hold⟩] at hstay
        cases hstay
      rw [htimer, htime, BitVec.le_def, BitVec.toNat_sub] at hyoung
      simp only [BitVec.toNat_ofNat] at hyoung
      omega
    · exact absurd hlaunch hcount

/-- A sweep leaves no stale data, except for nodes that were only heard of while the timer was 0. -/
theorem fresh_after_sweep_iff (overtime : U32) (regs : Table) (events : List (Event F))
    (hb : (history events).ticks < 2 ^ 32) :
    Fresh overtime (history events) (run (step overtime) (start regs) (events ++ [.sweep])).regs ↔
      ∀ n < nodeCount, (history events).last n = some 0 → (history events).frames n % 2 ^ 32 ≠ 0 →
        (history events).ticks < overtime.toNat := by
  have hcount (n : Nat) (hn : n < nodeCount) (hl : (history events).last n = some 0) :
      launchAt (run (step overtime) (start regs) (events ++ [.sweep])).regs n ≠ 0#32 ↔
        (history events).frames n % 2 ^ 32 ≠ 0 := by
    rw [launch_after_sweep_of_zero overtime regs events n hn hl, ne_eq, ← BitVec.toNat_inj]
    simp
  constructor
  · intro hfresh n hn hl hframes
    obtain ⟨t, ht, -, hlt⟩ := hfresh n hn ((hcount n hn hl).mpr hframes)
    obtain rfl : 0 = t := by simpa [hl] using ht
    exact hlt
  · intro hzero n hn hshown
    by_cases hl : (history events).last n = some 0
    · exact ⟨0, hl, Nat.zero_le _, hzero n hn hl ((hcount n hn hl).mp hshown)⟩
    · exact young_after_sweep overtime regs events n hb hn hl hshown

/-- A valid frame for node 0. -/
def frameZero : Frame Float := ⟨⟨true, 0#32, 0, 0, 0#8, 1#8, 0#8⟩, rfl⟩

theorem fresh_after_sweep_one_frame :
    Fresh 60#32 (history [.tick, .frame frameZero])
      (run (step 60#32) (start zeroTable) ([.tick, .frame frameZero] ++ [.sweep])).regs :=
  (fresh_after_sweep_iff 60#32 zeroTable [.tick, .frame frameZero] (by decide)).mpr fun _ _ _ _ => by decide

/-- A frame of the first second is still shown after a timeout of one minute. -/
theorem first_second_stale :
    ¬Fresh 60#32 (history (.frame frameZero :: List.replicate 60 .tick))
      (run (step 60#32) (start zeroTable) (.frame frameZero :: List.replicate 60 .tick ++ [.sweep])).regs := by
  have hlast : (history (.frame frameZero :: List.replicate 60 .tick)).last 0 = some 0 := by decide
  have hlaunch := launch_after_sweep_of_zero 60#32 zeroTable _ 0 (by decide) hlast
  intro hfresh
  obtain ⟨t, ht, -, hlt⟩ := hfresh 0 (by decide) (by rw [hlaunch]; decide)
  rw [hlast, Option.some.injEq] at ht
  subst ht
  revert hlt
  decide

end Freshness

end DataReceiveRelay.Overtime
