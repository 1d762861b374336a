import DataReceiveRelay.ModbusSession

/-!
# Every request is answered

Between two frames the link always comes to rest. How far it is from rest is a
number: what the poll still has to do, with the replies that may come of it, and
what is left to send. Every turn of a thread that has something to do brings it
down, and no other step raises it. After a single frame, two calls of the poll
are enough for the request, one turn of the transmit thread for each character
of the reply and two more for its end, and another call of the poll.
-/

namespace DataReceiveRelay.ModbusProgress

open Words Runs Blocks EventFlags ModbusCrc ModbusFunctions ModbusService ModbusRtu ModbusFrame ModbusSession

section Work

/-- The work that an event in hand may cause: a request ends in a reply of up to 256 characters. -/
def cost : EventType → Nat
  | .ready => 1
  | .frameReceived => 263
  | .execute => 261
  | .frameSent => 1

def costOf (flags : U8) : Nat := ((eventOf flags).map cost).getD 0

/-- What the poll has to do. -/
def waiting (event : Event 8) : Nat :=
  (match event.thread with
    | .resumed recved => costOf recved
    | _ => 0) +
  if event.set = 0#8 then 0 else costOf event.set + 1

/-- What the transmit thread has to do, and the event that it posts. -/
def unsent (s : State) : Nat :=
  if s.eSndState = .xmit ∧ s.leaving = false then s.usSndBufferCount + 4
  else (if s.leaving then 1 else 0) + if s.transStart then 1 else 0

def work (s : State) : Nat := waiting s.event + unsent s

variable {buffer : Nat → U8} {ucMBAddress : U8} {s : State} {event : Event 8}

/-- No frame is being received. -/
structure Idle (buffer : Nat → U8) (s : State) : Prop where
  inv : Inv buffer s
  receiver : s.eRcvState = .idle

theorem Idle.timer (h : Idle buffer s) : s.timer = false := by
  rw [← Bool.not_eq_true]
  exact fun ht => h.inv.timer.mp ht h.receiver

/-- The two threads by turns. -/
def alternate : Nat → List Label
  | 0 => []
  | n + 1 => .poll :: .transmit :: alternate n

/-- The turns that bring a state to rest, with the thread first that has something to do. -/
def need (s : State) : List Label :=
  if waiting s.event = 0 then
    if unsent s = 0 then [] else .transmit :: alternate (work s - 1)
  else .poll :: .transmit :: alternate (work s - 1)

end Work

section Reply

/-- Turns of the poll thread until the request has been executed. -/
def toTake (event : Event 8) : Nat :=
  if event.set = EventType.frameReceived.mask then 4
  else if event.thread = .resumed EventType.frameReceived.mask then 3
  else if event.set = EventType.execute.mask then 2
  else if event.thread = .resumed EventType.execute.mask then 1
  else 0

/-- Turns of the transmit thread until the transmitter is idle. -/
def toSend (s : State) : Nat :=
  if s.eSndState = .xmit then if s.leaving then 1 else s.usSndBufferCount + 2 else 0

/-- Turns of the poll thread until it has seen the end of the reply. -/
def toSee (event : Event 8) : Nat :=
  (match event.thread with
    | .resumed _ => 1
    | _ => 0) +
  if event.set = 0#8 then 0 else 2

/-- Two calls of the poll for a frame, its reply, and the call behind it. -/
def restPlan : List Label := List.replicate 4 .poll ++ (List.replicate 258 .transmit ++ List.replicate 2 .poll)

variable {buffer : Nat → U8} {ucMBAddress : U8} {s₁ s : State} {event : Event 8}

theorem toTake_free (h : Free event) : toTake event = 0 := by
  obtain ⟨set, thread⟩ := event
  obtain ⟨rfl, rfl | rfl⟩ := h <;> rfl

theorem toTake_sent (h : Underway EventType.frameSent.mask event) : toTake event = 0 := by
  obtain ⟨set, thread⟩ := event
  obtain ⟨rfl, rfl⟩ | ⟨rfl, rfl⟩ := h <;> rfl

theorem toTake_pos (h : Underway EventType.frameReceived.mask event ∨ Underway EventType.execute.mask event) :
    toTake event ≠ 0 := by
  obtain ⟨set, thread⟩ := event
  obtain (⟨rfl, rfl⟩ | ⟨rfl, rfl⟩) | (⟨rfl, rfl⟩ | ⟨rfl, rfl⟩) := h <;> decide

/-- A frame is being answered. -/
structure Answering (buffer : Nat → U8) (ucMBAddress : U8) (s₁ s : State) : Prop where
  intact : Intact buffer s
  serving : ∃ fs, Serving ucMBAddress s₁ fs s

theorem Answering.running (h₁ : Pending s₁) (h : Answering buffer ucMBAddress s₁ s) : ¬ s.stopped = true := by
  obtain ⟨fs, hserving⟩ := h.serving
  rw [State.stopped, (serving_live h₁ hserving).1]
  decide

theorem answering_step (h₁ : Pending s₁) (s : State) (l : Label) (h : Answering buffer ucMBAddress s₁ s)
    (hl : ∀ c, l ≠ .byte c) : Answering buffer ucMBAddress s₁ (step ucMBAddress s l) := by
  obtain ⟨fs, hserving⟩ := h.serving
  exact ⟨intact_step ucMBAddress s l h.intact, _, serving_step h₁ hserving l hl⟩

/-- The poll drops a frame, or hands it on. -/
theorem event_frameReceived (ucMBAddress : U8) (s : State) (h : s.event = ⟨0#8, .running⟩) :
    (frameReceived ucMBAddress s).event = ⟨0#8, .running⟩ ∨
      (frameReceived ucMBAddress s).event = ⟨EventType.execute.mask, .running⟩ := by
  have hsend : send anyEvent EventType.execute.mask s.event = ⟨EventType.execute.mask, .running⟩ := by
    rw [h]
    decide
  rw [frameReceived]
  dsimp only
  split_ifs
  · exact .inl h
  · exact .inr hsend
  · exact .inl h
  · exact .inl h

theorem toTake_poll (h₁ : Pending s₁) (h : Answering buffer ucMBAddress s₁ s) :
    toTake (step ucMBAddress s .poll).event ≤ toTake s.event - 1 := by
  have hrunning := h.running h₁
  obtain ⟨fs, hserving⟩ := h.serving
  rw [step, if_neg hrunning]
  cases hserving with
  | waiting _ event hevent =>
    obtain ⟨set, thread⟩ := event
    obtain ⟨rfl, rfl⟩ | ⟨rfl, rfl⟩ := hevent
    · show toTake (recv anyEvent ⟨EventType.frameReceived.mask, .running⟩) ≤
        toTake ⟨EventType.frameReceived.mask, .running⟩ - 1
      decide
    · obtain hdropped | hhanded := event_frameReceived ucMBAddress
        { s₁ with event := ⟨0#8, .running⟩, banks := applied fs s₁.banks } rfl
      · exact (congrArg toTake hdropped).trans_le (Nat.zero_le _)
      · exact (congrArg toTake hhanded).le
  | taken _ event hevent hgood hmine =>
    obtain ⟨set, thread⟩ := event
    obtain ⟨rfl, rfl⟩ | ⟨rfl, rfl⟩ := hevent
    · show toTake (recv anyEvent ⟨EventType.execute.mask, .running⟩) ≤ toTake ⟨EventType.execute.mask, .running⟩ - 1
      decide
    · have hdone := (execute_event ucMBAddress (s := { s₁ with
        event := ⟨0#8, .running⟩
        framed := true
        ucRcvAddress := s₁.ucRTUBuf 0
        usLength := s₁.usRcvBufferPos - 3
        banks := applied fs s₁.banks }) rfl).1
      exact (congrArg toTake hdone).le
  | sending before after k n _ hblock hk hline hbanks hcur hcount hr hs hl htimer hevent htx hsound =>
    obtain ⟨event, hfree, hpoll⟩ := poll_free ucMBAddress hevent
    rw [hpoll, toTake_free hfree]
    exact Nat.zero_le _
  | served before after _ hline hbanks hr htimer hevent htx hsound =>
    rcases hevent with hevent | hevent
    · obtain ⟨event, hfree, hpoll⟩ := poll_free ucMBAddress hevent
      rw [hpoll, toTake_free hfree]
      exact Nat.zero_le _
    · obtain hpoll | hpoll := poll_underway ucMBAddress .frameSent hevent
      · rw [hpoll]
        exact Nat.zero_le _
      · rw [hpoll]
        exact Nat.zero_le _

/-- Only the poll thread takes an event. -/
theorem toTake_other (h₁ : Pending s₁) (h : Answering buffer ucMBAddress s₁ s) (l : Label) (hl : ∀ c, l ≠ .byte c)
    (hpoll : l ≠ .poll) : toTake (step ucMBAddress s l).event ≤ toTake s.event := by
  have hrunning := h.running h₁
  obtain ⟨fs, hserving⟩ := h.serving
  have htimer := (serving_live h₁ hserving).2
  cases l with
  | byte c => exact absurd rfl (hl c)
  | timer =>
    rw [step, if_neg hrunning, if_neg (by rw [htimer]; decide)]
  | transmit =>
    rw [step, if_neg hrunning]
    cases hserving with
    | waiting _ event hevent => rw [if_neg (by rw [h₁.tx, h₁.leaving]; decide)]
    | taken _ event hevent hgood hmine => rw [if_neg (by rw [h₁.tx, h₁.leaving]; decide)]
    | sending before after k n _ hblock hk hline hbanks hcur hcount hr hs hl htimer hevent htx hsound =>
      split
      case isTrue hon =>
        obtain ⟨-, -, hstep⟩ | ⟨-, -, -, -, hstep⟩ | ⟨-, -, -, -, hstep⟩ | ⟨-, -, -, hstep⟩ :=
          transmit_cases h.intact hon
        · rw [hstep]
        · rw [hstep, toTake_sent (hevent.send (anyEvent_and _) (mask_ne_zero _))]
          exact Nat.zero_le _
        · rw [hstep]
        · rw [hstep]
      case isFalse => exact Nat.le_refl _
    | served before after _ hline hbanks hr htimer hevent htx hsound =>
      split
      case isTrue hon =>
        have hstep : xMBRTUTransmitFSM s = { s with eSndState := .idle, leaving := false } := by
          rw [htx, Bool.false_or] at hon
          rw [xMBRTUTransmitFSM, if_pos hon]
        rw [hstep]
      case isFalse => exact Nat.le_refl _
  | poll => exact absurd rfl hpoll
  | app change =>
    rw [step, if_neg hrunning]

/-- Once the request has been executed, the poll has nothing more to send. -/
theorem toSend_poll (h₁ : Pending s₁) (h : Answering buffer ucMBAddress s₁ s) (htaken : toTake s.event = 0) :
    toSend (step ucMBAddress s .poll) = toSend s := by
  have hrunning := h.running h₁
  obtain ⟨fs, hserving⟩ := h.serving
  rw [step, if_neg hrunning]
  cases hserving with
  | waiting _ event hevent => exact absurd htaken (toTake_pos (.inl hevent))
  | taken _ event hevent hgood hmine => exact absurd htaken (toTake_pos (.inr hevent))
  | sending before after k n _ hblock hk hline hbanks hcur hcount hr hs hl htimer hevent htx hsound =>
    obtain ⟨event, hfree, hpoll⟩ := poll_free ucMBAddress hevent
    rw [hpoll]
    rfl
  | served before after _ hline hbanks hr htimer hevent htx hsound =>
    rcases hevent with hevent | hevent
    · obtain ⟨event, hfree, hpoll⟩ := poll_free ucMBAddress hevent
      rw [hpoll]
      rfl
    · obtain hpoll | hpoll := poll_underway ucMBAddress .frameSent hevent
      · rw [hpoll]
        rfl
      · rw [hpoll]
        rfl

theorem toSend_transmit (h₁ : Pending s₁) (h : Answering buffer ucMBAddress s₁ s) :
    toSend (step ucMBAddress s .transmit) ≤ toSend s - 1 := by
  rw [step, if_neg (h.running h₁)]
  split
  case isTrue hon =>
    obtain ⟨hl, hs, hstep⟩ | ⟨hl, -, hs, hcount, hstep⟩ | ⟨hl, -, hs, hcount, hstep⟩ | ⟨-, -, hs, hstep⟩ :=
      transmit_cases h.intact hon
    · rw [hstep]
      exact Nat.zero_le _
    · rw [hstep]
      simp [toSend, hs, hl]
    · rw [hstep]
      simp only [toSend, hs, hl, if_true, Bool.false_eq_true, if_false]
      omega
    · rw [hstep]
      simp [toSend, hs]
  case isFalse hoff =>
    have hs : s.eSndState = .idle := by
      cases hs : s.eSndState with
      | idle => rfl
      | xmit =>
        obtain hl | ht := h.intact.sending hs
        · rw [hl, Bool.or_true] at hoff
          exact absurd rfl hoff
        · rw [ht, Bool.true_or] at hoff
          exact absurd rfl hoff
    simp [toSend, hs]

theorem toSend_le (h : Intact buffer s) : toSend s ≤ 258 := by
  have hsent := h.sent
  rw [mbSerPduSizeMax] at hsent
  rw [toSend]
  split_ifs <;> omega

theorem toSend_other (h₁ : Pending s₁) (h : Answering buffer ucMBAddress s₁ s) (htaken : toTake s.event = 0)
    (l : Label) (hl : ∀ c, l ≠ .byte c) : toSend (step ucMBAddress s l) ≤ toSend s := by
  cases l with
  | byte c => exact absurd rfl (hl c)
  | timer =>
    obtain ⟨fs, hserving⟩ := h.serving
    rw [step, if_neg (h.running h₁), if_neg (by rw [(serving_live h₁ hserving).2]; decide)]
  | transmit => exact (toSend_transmit h₁ h).trans (Nat.sub_le _ _)
  | poll => exact (toSend_poll h₁ h htaken).le
  | app change =>
    rw [step, if_neg (h.running h₁)]
    exact Nat.le_refl _

/-- Nothing is left to send. -/
theorem idle_of_toSend (h : toSend s = 0) : s.eSndState = .idle := by
  cases hs : s.eSndState with
  | idle => rfl
  | xmit =>
    rw [toSend, if_pos hs] at h
    split at h <;> omega

/-- Then the reply is out, and the event that ends it at most is on its way. -/
theorem seen_of_idle (h : Answering buffer ucMBAddress s₁ s) (htaken : toTake s.event = 0)
    (hsent : toSend s = 0) :
    s.eRcvState = .idle ∧ s.leaving = false ∧ s.transStart = false ∧
      (Free s.event ∨ Underway EventType.frameSent.mask s.event) := by
  have hs := idle_of_toSend hsent
  have hl : s.leaving = false := by
    rw [← Bool.not_eq_true]
    exact fun hl => absurd (hs.symm.trans (h.intact.leaving hl).1) (by decide)
  obtain ⟨fs, hserving⟩ := h.serving
  cases hserving with
  | waiting _ event hevent => exact absurd htaken (toTake_pos (.inl hevent))
  | taken _ event hevent hgood hmine => exact absurd htaken (toTake_pos (.inr hevent))
  | sending before after k n _ hblock hk hline hbanks hcur hcount hr hxmit hl htimer hevent htx hsound =>
    exact absurd (hs.symm.trans hxmit) (by decide)
  | served before after _ hline hbanks hr htimer hevent htx hsound => exact ⟨hr, hl, htx, hevent⟩

theorem toSee_free (h : Free event) : toSee event = 0 := by
  obtain ⟨set, thread⟩ := event
  obtain ⟨rfl, rfl | rfl⟩ := h <;> rfl

theorem toSee_poll (h₁ : Pending s₁) (h : Answering buffer ucMBAddress s₁ s) (htaken : toTake s.event = 0)
    (hsent : toSend s = 0) : toSee (step ucMBAddress s .poll).event ≤ toSee s.event - 1 := by
  obtain ⟨-, -, -, hevent⟩ := seen_of_idle h htaken hsent
  rw [step, if_neg (h.running h₁)]
  rcases hevent with hevent | ⟨hset, hthread⟩ | ⟨hset, hthread⟩
  · obtain ⟨event, hfree, hpoll⟩ := poll_free ucMBAddress hevent
    rw [hpoll, toSee_free hfree]
    exact Nat.zero_le _
  · have hpoll : eMBPoll ucMBAddress s = { s with event := ⟨0#8, .resumed EventType.frameSent.mask⟩ } := by
      rw [eMBPoll, hthread]
      simp only [recv_flags hset (anyEvent_and _) (mask_ne_zero _)]
    have hbefore : toSee s.event = 2 := by
      rw [toSee, hthread, hset]
      decide
    rw [hpoll, hbefore]
    exact Nat.le_refl 1
  · have hpoll : eMBPoll ucMBAddress s = { s with event := ⟨0#8, .running⟩ } := by
      rw [eMBPoll, hthread]
      simp only [eventOf_mask, Event.resume, hset, handleEvent]
    rw [hpoll]
    exact Nat.zero_le _

theorem toSee_other (h₁ : Pending s₁) (h : Answering buffer ucMBAddress s₁ s) (htaken : toTake s.event = 0)
    (hsent : toSend s = 0) (l : Label) (hl : ∀ c, l ≠ .byte c) :
    toSee (step ucMBAddress s l).event ≤ toSee s.event := by
  obtain ⟨-, hleaving, htx, -⟩ := seen_of_idle h htaken hsent
  cases l with
  | byte c => exact absurd rfl (hl c)
  | timer =>
    obtain ⟨fs, hserving⟩ := h.serving
    rw [step, if_neg (h.running h₁), if_neg (by rw [(serving_live h₁ hserving).2]; decide)]
  | transmit => rw [step, if_neg (h.running h₁), if_neg (by rw [htx, hleaving]; decide)]
  | poll => exact (toSee_poll h₁ h htaken hsent).trans (Nat.sub_le _ _)
  | app change => rw [step, if_neg (h.running h₁)]

theorem quiet_of_seen (h₁ : Pending s₁) (h : Answering buffer ucMBAddress s₁ s) (htaken : toTake s.event = 0)
    (hsent : toSend s = 0) (hseen : toSee s.event = 0) : Quiet s := by
  obtain ⟨hr, hl, htx, hevent⟩ := seen_of_idle h htaken hsent
  have hfree : Free s.event := by
    rcases hevent with hevent | ⟨hset, hthread⟩ | ⟨hset, hthread⟩
    · exact hevent
    · rw [toSee, hthread, hset] at hseen
      exact absurd hseen (by decide)
    · rw [toSee, hthread, hset] at hseen
      exact absurd hseen (by decide)
  obtain ⟨fs, hserving⟩ := h.serving
  obtain ⟨hsound, htimer⟩ := serving_live h₁ hserving
  exact ⟨hr, idle_of_toSend hsent, hl, by rw [h.intact.ports, htx]; rfl, htx, htimer, hfree, hsound⟩

/-- The request has been executed. -/
structure Executed (buffer : Nat → U8) (ucMBAddress : U8) (s₁ s : State) : Prop
    extends Answering buffer ucMBAddress s₁ s where
  taken : toTake s.event = 0

/-- The reply is out. -/
structure Sent (buffer : Nat → U8) (ucMBAddress : U8) (s₁ s : State) : Prop
    extends Executed buffer ucMBAddress s₁ s where
  sent : toSend s = 0

theorem toTake_le (h₁ : Pending s₁) (s : State) (l : Label) (h : Answering buffer ucMBAddress s₁ s)
    (hl : ∀ c, l ≠ .byte c) : toTake (step ucMBAddress s l).event ≤ toTake s.event := by
  by_cases hpoll : l = .poll
  · subst hpoll
    exact (toTake_poll h₁ h).trans (Nat.sub_le _ _)
  · exact toTake_other h₁ h l hl hpoll

theorem executed_step (h₁ : Pending s₁) (s : State) (l : Label) (h : Executed buffer ucMBAddress s₁ s)
    (hl : ∀ c, l ≠ .byte c) : Executed buffer ucMBAddress s₁ (step ucMBAddress s l) :=
  ⟨answering_step h₁ s l h.toAnswering hl, Nat.le_zero.mp ((toTake_le h₁ s l h.toAnswering hl).trans h.taken.le)⟩

theorem sent_step (h₁ : Pending s₁) (s : State) (l : Label) (h : Sent buffer ucMBAddress s₁ s)
    (hl : ∀ c, l ≠ .byte c) : Sent buffer ucMBAddress s₁ (step ucMBAddress s l) :=
  ⟨executed_step h₁ s l h.toExecuted hl,
    Nat.le_zero.mp ((toSend_other h₁ h.toAnswering h.taken l hl).trans h.sent.le)⟩

/-- A schedule without characters. -/
def Silent (ucMBAddress : U8) (s : State) (labels : List Label) : Prop :=
  Allowed (step ucMBAddress) (fun _ l => ∀ c, l ≠ .byte c) s labels

theorem silent_of_forall (s : State) (labels : List Label) (hl : ∀ c, .byte c ∉ labels) : Silent ucMBAddress s labels :=
  allowed_of_forall s labels fun _ hm _ c he => hl c (he ▸ hm)

theorem executed_run (h₁ : Pending s₁) (h : Answering buffer ucMBAddress s₁ s) (labels : List Label)
    (hl : Silent ucMBAddress s labels) (hplan : (List.replicate 4 .poll).Sublist labels) :
    Executed buffer ucMBAddress s₁ (run (step ucMBAddress) s labels) := by
  have hmost : toTake s.event ≤ 4 := by
    rw [toTake]
    split_ifs <;> omega
  refine ⟨invariant_of_allowed (answering_step h₁) s labels h hl, ?_⟩
  exact run_of_measure (fun s => toTake s.event) .poll (answering_step h₁) (fun s hs _ => toTake_poll h₁ hs)
    (toTake_le h₁) s labels h hl (((List.replicate_sublist_replicate _).mpr hmost).trans hplan)

theorem sent_run (h₁ : Pending s₁) (h : Executed buffer ucMBAddress s₁ s) (labels : List Label)
    (hl : Silent ucMBAddress s labels) (hplan : (List.replicate 258 .transmit).Sublist labels) :
    Sent buffer ucMBAddress s₁ (run (step ucMBAddress) s labels) := by
  refine ⟨invariant_of_allowed (executed_step h₁) s labels h hl, ?_⟩
  exact run_of_measure toSend .transmit (executed_step h₁) (fun s hs _ => toSend_transmit h₁ hs.toAnswering)
    (fun s l hs hc => toSend_other h₁ hs.toAnswering hs.taken l hc) s labels h hl
    (((List.replicate_sublist_replicate _).mpr (toSend_le h.intact)).trans hplan)

theorem seen_run (h₁ : Pending s₁) (h : Sent buffer ucMBAddress s₁ s) (labels : List Label)
    (hl : Silent ucMBAddress s labels) (hplan : (List.replicate 2 .poll).Sublist labels) :
    Quiet (run (step ucMBAddress) s labels) := by
  have hmost : toSee s.event ≤ 2 := by
    obtain ⟨-, -, -, hfree | ⟨hset, hthread⟩ | ⟨hset, hthread⟩⟩ := seen_of_idle h.toAnswering h.taken h.sent
    · rw [toSee_free hfree]
      omega
    · rw [toSee, hset, hthread]
      decide
    · rw [toSee, hset, hthread]
      decide
  have hend := invariant_of_allowed (sent_step h₁) s labels h hl
  refine quiet_of_seen h₁ hend.toAnswering hend.taken hend.sent ?_
  exact run_of_measure (fun s => toSee s.event) .poll (sent_step h₁)
    (fun s hs _ => toSee_poll h₁ hs.toAnswering hs.taken hs.sent)
    (fun s l hs hc => toSee_other h₁ hs.toAnswering hs.taken hs.sent l hc) s labels h hl
    (((List.replicate_sublist_replicate _).mpr hmost).trans hplan)

/-- The request is executed, the reply is sent, and its end is seen, one after the other. -/
theorem rests_plan (h₁ : Pending s₁) (h : Answering buffer ucMBAddress s₁ s) (labels : List Label)
    (hl : ∀ c, .byte c ∉ labels) (hplan : restPlan.Sublist labels) : Quiet (run (step ucMBAddress) s labels) := by
  obtain ⟨first, more, rfl, hfirst, hmore⟩ := List.append_sublist_iff.mp hplan
  obtain ⟨second, third, rfl, hsecond, hthird⟩ := List.append_sublist_iff.mp hmore
  have hsilent : Silent ucMBAddress s (first ++ (second ++ third)) := silent_of_forall s _ hl
  obtain ⟨hone, hrest⟩ := (allowed_append _ _ _ _ _).mp hsilent
  obtain ⟨htwo, hthree⟩ := (allowed_append _ _ _ _ _).mp hrest
  rw [run_append, run_append]
  exact seen_run h₁ (sent_run h₁ (executed_run h₁ h first hone hfirst) second htwo hsecond) third hthree hthird

end Reply

section Sessions

/-- The host keeps the rules, and the two threads get their turns before it sends again. -/
structure Prompt (t : Turn) : Prop where
  gapless : .timer ∉ t.arriving
  alone : ∀ c, .byte c ∉ t.rest
  plan : restPlan.Sublist t.rest

variable {buffer : Nat → U8} {ucMBAddress : U8} {s₁ s : State}

theorem fair_of_prompt (ucMBAddress : U8) (h : Quiet s) (hintact : Intact buffer s) (t : Turn) (ht : Prompt t) :
    Fair ucMBAddress s t := by
  refine ⟨ht.gapless, ht.alone, ?_⟩
  obtain ⟨event, hevent, hpause⟩ := run_pause ucMBAddress h t.arriving ht.gapless
  have hended : Intact buffer (ended s event (chars t.arriving) (changes t.arriving)) :=
    hpause ▸ invariant (intact_step ucMBAddress) s _ hintact
  rw [run_turn, hpause]
  by_cases hframe : chars t.arriving ≠ [] ∧ (chars t.arriving).length ≤ mbSerPduSizeMax
  · have hpending := pending_ended h event _ (changes t.arriving) hframe.1 hframe.2 hevent
    exact rests_plan hpending ⟨hended, [], serving_start ucMBAddress hpending⟩ t.rest ht.alone ht.plan
  · exact (quiet_run ucMBAddress (quiet_ended h event _ _ hframe hevent) t.rest ht.alone).1

/-- Turns that end in a quiet state, by their plan or as it happens. -/
theorem allowed_fair (ucMBAddress : U8) (h : Quiet s) (hintact : Intact buffer s)
    (turns : List (Turn × Option (U8 × Request)))
    (hturns : Allowed (fun s t => run (step ucMBAddress) s t.1.labels)
      (fun s t => (Prompt t.1 ∨ Fair ucMBAddress s t.1) ∧ Carries (chars t.1.arriving) t.2) s turns) :
    Allowed (fun s t => run (step ucMBAddress) s t.1.labels)
      (fun s t => Fair ucMBAddress s t.1 ∧ Carries (chars t.1.arriving) t.2) s turns ∧
      Quiet (run (step ucMBAddress) s (turns.flatMap fun t => t.1.labels)) ∧
      Intact buffer (run (step ucMBAddress) s (turns.flatMap fun t => t.1.labels)) := by
  induction turns generalizing s with
  | nil => exact ⟨trivial, h, hintact⟩
  | cons t turns ih =>
    obtain ⟨⟨hends, hcarries⟩, hrest⟩ := hturns
    have hfair : Fair ucMBAddress s t.1 := hends.elim (fair_of_prompt ucMBAddress h hintact t.1) id
    obtain ⟨hallowed, hquiet⟩ := ih hfair.finished (invariant (intact_step ucMBAddress) s _ hintact) hrest
    refine ⟨⟨⟨hfair, hcarries⟩, hallowed⟩, ?_⟩
    rw [List.flatMap_cons, run_append]
    exact hquiet

/-- The slave when the line has been silent for the first time. -/
def ready (banks : Banks) (buffer : Nat → U8) (unassigned : Nat → Option EventType) : State :=
  { start banks buffer unassigned with eRcvState := .idle, timer := false }

theorem run_start (ucMBAddress : U8) (banks : Banks) (buffer : Nat → U8) (unassigned : Nat → Option EventType) :
    run (step ucMBAddress) (start banks buffer unassigned) [.timer, .poll, .poll] = ready banks buffer unassigned := by
  have hpost : send anyEvent EventType.ready.mask ⟨0#8, .running⟩ = ⟨EventType.ready.mask, .running⟩ := by decide
  have hasks : recv anyEvent ⟨EventType.ready.mask, .running⟩ = ⟨0#8, .resumed EventType.ready.mask⟩ := by decide
  simp [start, ready, step, State.stopped, xMBRTUTimerT35Expired, xMBPortEventPost, hpost, eMBPoll, hasks, eventOf_mask,
    handleEvent, Event.resume]

theorem quiet_ready (banks : Banks) (buffer : Nat → U8) (unassigned : Nat → Option EventType) :
    Quiet (ready banks buffer unassigned) :=
  ⟨rfl, rfl, rfl, rfl, rfl, rfl, ⟨rfl, .inl rfl⟩, rfl⟩

theorem intact_ready (banks : Banks) (buffer : Nat → U8) (unassigned : Nat → Option EventType) :
    Intact buffer (ready banks buffer unassigned) :=
  run_start 0#8 banks buffer unassigned ▸ invariant (intact_step 0#8) _ _ (intact_start banks buffer unassigned)

/-- From the start of the slave on, every session of a host that keeps the rules is served, under every schedule: the
line and the registers end as those of a server that takes the requests one by one, each within its turn and at one
point between the changes that other threads make to the registers. -/
theorem session_served (ucMBAddress : U8) (banks : Banks) (buffer : Nat → U8) (unassigned : Nat → Option EventType)
    (turns : List (Turn × Option (U8 × Request)))
    (hturns : Allowed (fun s t => run (step ucMBAddress) s t.1.labels)
      (fun s t => (Prompt t.1 ∨ Fair ucMBAddress s t.1) ∧ Carries (chars t.1.arriving) t.2)
      (ready banks buffer unassigned) turns) :
    let s := run (step ucMBAddress) (start banks buffer unassigned)
      (.timer :: .poll :: .poll :: turns.flatMap fun t => t.1.labels)
    Quiet s ∧ ∃ history : List (List Op), List.Forall₂ Behind turns history ∧
      run (Op.serve ucMBAddress) ([], banks) history.flatten = (s.line, s.banks) := by
  intro s
  have hrun : s = run (step ucMBAddress) (ready banks buffer unassigned) (turns.flatMap fun t => t.1.labels) := by
    rw [← run_start ucMBAddress, ← run_append]
    rfl
  obtain ⟨hallowed, hrest, -⟩ := allowed_fair ucMBAddress (quiet_ready banks buffer unassigned)
    (intact_ready banks buffer unassigned) turns hturns
  obtain ⟨history, hhistory, hserved⟩ :=
    session_linear ucMBAddress _ (quiet_ready banks buffer unassigned) turns hallowed
  rw [hrun]
  exact ⟨hrest, history, hhistory, hserved⟩

theorem no_byte_restPlan : ∀ c, Label.byte c ∉ restPlan := by
  intro c h
  rw [restPlan, List.mem_append, List.mem_append, List.mem_replicate, List.mem_replicate, List.mem_replicate] at h
  rcases h with ⟨-, h⟩ | ⟨-, h⟩ | ⟨-, h⟩ <;> cases h

/-- A register is written while another thread clears the table. -/
def sampleTurn : Turn × Option (U8 × Request) :=
  (⟨(adu 1#8 (Request.writeSingle 2#16 5#16).pdu).map .byte, .app (fun _ => blankBanks) :: restPlan⟩,
    some (1#8, .writeSingle 2#16 5#16))

theorem sampleTurn_chars : chars sampleTurn.1.arriving = adu 1#8 (Request.writeSingle 2#16 5#16).pdu := by
  rw [sampleTurn, chars, List.filterMap_map]
  exact List.filterMap_some

theorem sampleTurn_prompt : Prompt sampleTurn.1 := by
  refine ⟨?_, ?_, List.sublist_cons_self _ _⟩
  · simp [sampleTurn]
  · intro c hc
    rcases List.mem_cons.mp hc with hc | hc
    · cases hc
    · exact no_byte_restPlan c hc

theorem session_served_one_turn :
    Quiet (run (step 1#8) (start blankBanks (fun _ => 0#8) fun _ => none)
      (.timer :: .poll :: .poll :: [sampleTurn].flatMap fun t => t.1.labels)) := by
  have hcarries : Carries (chars sampleTurn.1.arriving) sampleTurn.2 := by
    refine ⟨sampleTurn_chars, ?_⟩
    rw [sampleTurn_chars]
    decide
  exact (session_served 1#8 blankBanks (fun _ => 0#8) (fun _ => none) [sampleTurn]
    ⟨⟨.inl sampleTurn_prompt, hcarries⟩, trivial⟩).1

end Sessions

end DataReceiveRelay.ModbusProgress
