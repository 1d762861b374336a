import DataReceiveRelay.NodeDataReads
import DataReceiveRelay.Nodes

/-!
# The launch counter

Every stored frame reads the two counter registers of its node, joins them, adds
one and splits the sum again. Over any interleaving of frames, with visits of the
timeout thread that find nothing to clear, the counter of a node moves by the
number of its frames, modulo 2 ^ 32. The receive thread goes through such events,
one for each packet that gets to the analysis.
-/

namespace DataReceiveRelay.LaunchCounter

open Words Runs Registers Radio DataFrame Receive Overtime Nodes NodeDataReads

variable {F : Type} [CFloat F]

/-- The frame is accepted and its ID first matches at slot `n`. -/
def CountsFor (regs : Table) (n : Nat) (b : Nat → U8) : Prop :=
  GoodFrame b ∧ IdMatches b regs n ∧ ∀ j < n, ¬IdMatches b regs j

instance (regs : Table) (n : Nat) (b : Nat → U8) : Decidable (CountsFor regs n b) :=
  inferInstanceAs (Decidable (GoodFrame b ∧ _ = _ ∧ ∀ j < n, ¬_ = _))

/-- The event is a frame that counts for node `n`. -/
def counted (regs : Table) (n : Nat) : Event → Bool
  | .frame _ _ b => decide (CountsFor regs n b)
  | .visit _ _ _ => false

/-- No visit of node `n` finds it timed out. -/
def InTime (n : Nat) (s : State F) : Event → Prop
  | .frame _ _ _ => True
  | .visit now overtime i => i.val = n → timedOut now overtime s.regs i = false

/-- The counter of node `n`, from its two registers. -/
def launchCount (regs : Table) (n : Nat) : Nat := (regs (0x208 + 2 * n)).toNat + 2 ^ 16 * (regs (0x209 + 2 * n)).toNat

section Steps

theorem counted_frame (regs : Table) (n : Nat) (hn : n < nodeCount) (now : U32) (value : StatusRegisters)
    (b : Nat → U8) : counted regs n (.frame now value b) = true ↔ node regs (.frame now value b) = some n := by
  rw [counted, decide_eq_true_eq, node_frame, CountsFor]
  tauto

theorem not_counted (regs : Table) (n : Nat) (hn : n < nodeCount) (e : Event) (h : node regs e ≠ some n) :
    counted regs n e = false := by
  cases e with
  | visit now overtime i => rfl
  | frame now value b =>
    rw [Bool.eq_false_iff, ne_eq, counted_frame regs n hn]
    exact h

/-- What counts depends on the ID area only. -/
theorem counted_congr (regs regs' : Table) (n : Nat) (hn : n < nodeCount) (h : SameIds regs regs') :
    counted regs n = counted regs' n := by
  funext e
  cases e with
  | visit now overtime i => rfl
  | frame now value b =>
    rw [Bool.eq_iff_iff, counted_frame regs n hn, counted_frame regs' n hn, node_congr regs regs' h]

/-- A frame stored for another node does not touch the counter. -/
theorem storeFrame_launch_other (now : U32) (value : StatusRegisters) (b : Nat → U8) (s : State F) (m n : Nat)
    (hm : m < nodeCount) (hn : n < nodeCount) (hg : GoodFrame b) (h : m ≠ n) :
    launchAt (storeFrame now (found value b s.nodeData m) s.regs) n = launchAt s.regs n := by
  apply launchAt_congr
  intro a ha
  exact storeFrame_other now _ s.regs m (found_valid value b s.nodeData hg m) (found_number value b s.nodeData m hm) a
    (nodeRegisters_disjoint n m a hn hm (Ne.symm h) ha)

/-- Neither does a visit that does not find the node timed out. -/
theorem visitNode_launch (now overtime : U32) (regs : Table) (i : Fin 256) (n : Nat) (hn : n < nodeCount)
    (h : i.val = n → timedOut now overtime regs i = false) :
    launchAt (visitNode now overtime regs i) n = launchAt regs n := by
  apply launchAt_congr
  intro a ha
  by_cases hi : i.val = n
  · rw [visitNode, h hi]
    rfl
  · exact visitNode_other now overtime regs i a (nodeRegisters_disjoint n i a hn i.isLt (Ne.symm hi) ha)

/-- One event moves the counter of a node by one if it is a frame of that node, and else leaves it alone. -/
theorem step_launch (s : State F) (e : Event) (n : Nat) (hn : n < nodeCount) (h : InTime n s e) :
    launchAt (step s e).regs n = launchAt s.regs n + if counted s.regs n e then 1#32 else 0#32 := by
  cases step_cases s e with
  | nothing hnode hregs =>
    rw [hregs, not_counted s.regs n hn e (by simp [hnode])]
    simp
  | stored now value b m he hnode hm hg hregs =>
    subst he
    rw [hregs]
    by_cases hmn : m = n
    · subst hmn
      rw [(counted_frame s.regs m hm now value b).mpr hnode]
      exact (storeFrame_values now _ s.regs m (found_valid value b s.nodeData hg m)
        (found_number value b s.nodeData m hm)).2.2.2.1
    · rw [not_counted s.regs n hn _ (by simpa [hnode] using hmn), storeFrame_launch_other now value b s m n hm hn hg hmn]
      simp
  | visited now overtime i he hregs =>
    subst he
    rw [hregs, visitNode_launch now overtime s.regs i n hn h, counted]
    simp

end Steps

section Runs

/-- Over a whole run the counter moves by the number of the node's frames. -/
theorem run_launch (s : State F) (events : List Event) (n : Nat) (hn : n < nodeCount)
    (h : Allowed step (InTime n) s events) :
    launchAt (run step s events).regs n =
      launchAt s.regs n + BitVec.ofNat 32 (events.countP (counted s.regs n)) := by
  induction events generalizing s with
  | nil => simp
  | cons e events ih =>
    rw [run_cons, ih (step s e) h.2, step_launch s e n hn h.1, counted_congr _ _ n hn (step_ids s e),
      List.countP_cons, BitVec.add_assoc]
    congr 1
    apply BitVec.eq_of_toNat_eq
    split <;> simp [Nat.add_comm]

theorem launchAt_toNat (regs : Table) (n : Nat) : (launchAt regs n).toNat = launchCount regs n := by
  rw [launchAt, join_toNat, launchCount, launchNumberFiratAddress]
  rfl

/-- The counter counts frames: after any interleaving of frames and visits that clear nothing of node `n`, its two
registers are the halves of the old count plus the number of its frames, modulo 2 ^ 32. -/
theorem launch_counts_frames (s : State F) (events : List Event) (n : Nat) (hn : n < 256)
    (h : Allowed step (InTime n) s events) :
    launchCount (run step s events).regs n =
        (launchCount s.regs n + events.countP (counted s.regs n)) % 2 ^ 32 ∧
      ((run step s events).regs (0x208 + 2 * n)).toNat =
        (launchCount s.regs n + events.countP (counted s.regs n)) % 2 ^ 16 ∧
      ((run step s events).regs (0x209 + 2 * n)).toNat =
        (launchCount s.regs n + events.countP (counted s.regs n)) / 2 ^ 16 % 2 ^ 16 := by
  have hcount := congrArg BitVec.toNat (run_launch s events n hn h)
  rw [BitVec.toNat_add, launchAt_toNat, launchAt_toNat, BitVec.toNat_ofNat, Nat.add_mod_mod] at hcount
  have hlow := ((run step s events).regs (0x208 + 2 * n)).isLt
  have hhigh := ((run step s events).regs (0x209 + 2 * n)).isLt
  refine ⟨hcount, ?_, ?_⟩
  · rw [launchCount] at hcount
    omega
  · rw [launchCount] at hcount
    omega

/-- Device 1 in slot 0, with a full low word in its counter. -/
def fullLowWord : State Float := ⟨Function.update registeredOne 0x208 0xFFFF#16, blankNode⟩

/-- Two of its frames with a visit between them. -/
def framesAndVisit : List Event :=
  [.frame 5#32 ⟨0x20#8, 0x80#8⟩ (overlay frameOne fun _ => 0#8), .visit 6#32 60#32 ⟨0, by decide⟩,
    .frame 7#32 ⟨0x20#8, 0x80#8⟩ (overlay frameOne fun _ => 0#8)]

/-- The first frame carries into the high word. -/
theorem launch_counts_carry : launchCount fullLowWord.regs 0 = 0xFFFF ∧
    launchCount (run step fullLowWord framesAndVisit).regs 0 = 0x10001 := by
  have hcount := (launch_counts_frames fullLowWord framesAndVisit 0 (by decide)
    ⟨trivial, fun _ => by decide, trivial, trivial⟩).1
  have htwo : framesAndVisit.countP (counted fullLowWord.regs 0) = 2 := by decide
  have hfirst : launchCount fullLowWord.regs 0 = 0xFFFF := by decide
  rw [htwo, hfirst] at hcount
  exact ⟨hfirst, hcount⟩

end Runs

section Loop

instance (s : Loop F) (i : Pass) : Decidable (Analyses s i) := inferInstanceAs (Decidable (_ ∧ _ ∧ _ ∧ _ ∧ _))

/-- The event of a pass that gets to the analysis. -/
def passEvents (s : Loop F) (i : Pass) : List Event :=
  if Analyses s i then [.frame i.now ⟨i.poll.packet.rssi, i.poll.packet.lqi⟩ (overlay i.poll.packet.payload s.rxBuffer)]
  else []

/-- The events of a run of the receive thread. -/
def loopEvents : Loop F → List Pass → List Event
  | _, [] => []
  | s, i :: passes => passEvents s i ++ loopEvents (pass s i) passes

/-- What the receive thread shares with the others. -/
def shared (s : Loop F) : State F := ⟨s.regs, s.nodeData⟩

theorem pass_shared (s : Loop F) (i : Pass) : shared (pass s i) = run step (shared s) (passEvents s i) := by
  have hidle (hno : ¬Analyses s i) : run step (shared s) (passEvents s i) = shared s := by
    rw [passEvents, if_neg hno]
    rfl
  cases hover : s.overflow with
  | true =>
    have hno : ¬Analyses s i := fun ha => absurd (ha.1.symm.trans hover) Bool.false_ne_true
    rw [hidle hno, pass_overflowed s i hover]
  | false =>
    cases pass_cases s i hover with
    | quiet hd hpass =>
      rw [hidle fun ha => hd ha.2.1, hpass]
      rfl
    | rejected hd hle hpass =>
      rw [hidle fun ha => hle ha.2.2.1, hpass]
      rfl
    | overflow hd hle hlen hpass =>
      rw [hidle fun ha => hlen ha.2.2.2.1, hpass]
      rfl
    | crcBad hd hle hlen hcrc hpass =>
      rw [hidle fun ha => absurd (hcrc.symm.trans ha.2.2.2.2) Bool.false_ne_true, hpass]
      rfl
    | crcGood hd hle hlen hcrc hpass =>
      have ha : Analyses s i := ⟨hover, hd, hle, hlen, hcrc⟩
      rw [hpass, passEvents, if_pos ha]
      exact (packetBranch_step (taken s i) i).symm

/-- The receive thread goes through its events and does nothing else to what it shares. -/
theorem run_pass_shared (s : Loop F) (passes : List Pass) :
    shared (run pass s passes) = run step (shared s) (loopEvents s passes) := by
  induction passes generalizing s with
  | nil => rfl
  | cons i passes ih => rw [run_cons, ih, pass_shared, loopEvents, run_append]

theorem loopEvents_inTime (s : Loop F) (passes : List Pass) (n : Nat) (t : State F) :
    Allowed step (InTime n) t (loopEvents s passes) := by
  apply allowed_of_forall
  intro e he t
  induction passes generalizing s with
  | nil => cases he
  | cons i passes ih =>
    rw [loopEvents, List.mem_append] at he
    rcases he with he | he
    · rw [passEvents] at he
      split at he
      · rw [List.mem_singleton.mp he]
        trivial
      · cases he
    · exact ih (pass s i) he

/-- The law for the receive thread on its own, from any of its states. -/
theorem run_pass_launch (s : Loop F) (passes : List Pass) (n : Nat) (hn : n < nodeCount) :
    launchAt (run pass s passes).regs n =
      launchAt s.regs n + BitVec.ofNat 32 ((loopEvents s passes).countP (counted s.regs n)) := by
  have hregs : (run pass s passes).regs = (run step (shared s) (loopEvents s passes)).regs :=
    congrArg State.regs (run_pass_shared s passes)
  rw [hregs]
  exact run_launch (shared s) (loopEvents s passes) n hn (loopEvents_inTime s passes n (shared s))

end Loop

end DataReceiveRelay.LaunchCounter
