import Mathlib

/-!
# Event flags

A set of flags and the one thread that receives them. The thread asks for any of
the flags it wants: it takes all that are set, or is suspended. A sender adds
flags; a suspended thread is resumed at once, and what it is handed leaves the
set. What is sent while the thread runs is collected in the set: there a flag
that is sent twice is there once, and flags sent one after the other arrive
together.
-/

namespace DataReceiveRelay.EventFlags

variable {w : Nat}

inductive Thread (w : Nat) where
  | running
  | suspended
  /-- With these flags in hand. -/
  | resumed (recved : BitVec w)
  deriving DecidableEq, Repr

structure Event (w : Nat) where
  set : BitVec w
  thread : Thread w
  deriving DecidableEq, Repr

/-- Flags are sent to the event whose thread waits for any of `wanted` and clears what it gets. -/
def send (wanted flags : BitVec w) (event : Event w) : Event w :=
  let set := event.set ||| flags
  if event.thread = .suspended ∧ wanted &&& set ≠ 0#w then ⟨set &&& ~~~(wanted &&& set), .resumed (wanted &&& set)⟩
  else ⟨set, event.thread⟩

/-- The thread asks for any of `wanted`. -/
def recv (wanted : BitVec w) (event : Event w) : Event w :=
  if event.set &&& wanted ≠ 0#w then ⟨event.set &&& ~~~wanted, .resumed (event.set &&& wanted)⟩
  else ⟨event.set, .suspended⟩

/-- The thread goes on with what it has been handed. -/
def Event.resume (event : Event w) : Event w := ⟨event.set, .running⟩

variable {wanted flags : BitVec w} {event : Event w}

/-- Nothing is on its way to the thread. -/
def Free (event : Event w) : Prop := event.set = 0#w ∧ (event.thread = .running ∨ event.thread = .suspended)

instance (event : Event w) : Decidable (Free event) := inferInstanceAs (Decidable (_ ∧ _))

/-- The flags, and nothing else, are on their way to the thread. -/
def Underway (flags : BitVec w) (event : Event w) : Prop :=
  (event.set = flags ∧ event.thread = .running) ∨ (event.set = 0#w ∧ event.thread = .resumed flags)

theorem send_running (h : event.thread ≠ .suspended) : send wanted flags event = ⟨event.set ||| flags, event.thread⟩ :=
  if_neg fun hs => h hs.1

theorem send_suspended (h : event.thread = .suspended) (hset : event.set = 0#w) (hflags : wanted &&& flags = flags)
    (hsome : flags ≠ 0#w) : send wanted flags event = ⟨0#w, .resumed flags⟩ := by
  have hall : event.set ||| flags = flags := by rw [hset]; exact BitVec.zero_or
  have hnone : flags &&& ~~~flags = 0#w := BitVec.and_not_self flags
  simp only [send, hall, hflags]
  rw [if_pos ⟨h, hsome⟩, hnone]

/-- What is sent to a free event is on its way. -/
theorem Free.send (h : Free event) (hflags : wanted &&& flags = flags) (hsome : flags ≠ 0#w) :
    Underway flags (send wanted flags event) := by
  obtain ⟨hset, hrunning | hsuspended⟩ := h
  · rw [send_running (by rw [hrunning]; exact nofun), hset]
    exact .inl ⟨BitVec.zero_or, hrunning⟩
  · rw [send_suspended hsuspended hset hflags hsome]
    exact .inr ⟨rfl, rfl⟩

theorem recv_zero (h : event.set = 0#w) : recv wanted event = ⟨0#w, .suspended⟩ := by
  have hnone : 0#w &&& wanted = 0#w := BitVec.zero_and
  rw [recv, h, hnone, if_neg (not_not.mpr rfl)]

/-- The thread takes all that is set, if it wants it. -/
theorem recv_flags (h : event.set = flags) (hflags : wanted &&& flags = flags) (hsome : flags ≠ 0#w) :
    recv wanted event = ⟨0#w, .resumed flags⟩ := by
  have hnone : flags &&& ~~~wanted = 0#w := by
    rw [← hflags, BitVec.and_comm wanted flags, BitVec.and_assoc, BitVec.and_not_self]
    exact BitVec.and_zero
  rw [recv, h, BitVec.and_comm flags wanted, hflags, if_pos hsome, hnone]

theorem Free.recv (h : Free event) : Free (recv wanted event) := by
  rw [recv_zero h.1]
  exact ⟨rfl, .inr rfl⟩

/-- An event is not free while something is on its way. -/
theorem Underway.not_free (h : Underway flags event) (hsome : flags ≠ 0#w) : ¬ Free event := by
  rintro ⟨hset, hthread⟩
  obtain ⟨hflags, -⟩ | ⟨-, hresumed⟩ := h
  · exact hsome (hflags.symm.trans hset)
  · rcases hthread with hthread | hthread <;> rw [hresumed] at hthread <;> cases hthread

end DataReceiveRelay.EventFlags
