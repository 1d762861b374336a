import DataReceiveRelay.ModbusFrame

/-!
# Sessions

A host waits for the reply before it sends again. Under this rule the slave is a
server that answers one request after the other: whatever the scheduler does
between the interrupts, the poll, the transmit thread and the threads that work
on the registers, the line and the registers end as if each request had been
served at one point.
-/

namespace DataReceiveRelay.ModbusSession

open Words Runs Blocks EventFlags ModbusCrc ModbusFunctions ModbusService ModbusRtu ModbusFrame

/-- Nothing is under way. -/
structure Quiet (s : State) : Prop where
  receiver : s.eRcvState = .idle
  transmitter : s.eSndState = .idle
  leaving : s.leaving = false
  rx : s.rxEnabled = true
  tx : s.transStart = false
  timer : s.timer = false
  event : Free s.event
  sound : s.fault = none

/-- The characters among the labels. -/
def chars (labels : List Label) : Bytes :=
  labels.filterMap fun
    | .byte c => some c
    | _ => none

/-- What other threads do to the registers. -/
def changes (labels : List Label) : List (Banks → Banks) :=
  labels.filterMap fun
    | .app change => some change
    | _ => none

def applied (fs : List (Banks → Banks)) (banks : Banks) : Banks := fs.foldl (fun b f => f b) banks

theorem applied_append (first second : List (Banks → Banks)) (banks : Banks) :
    applied (first ++ second) banks = applied second (applied first banks) :=
  List.foldl_append

@[simp] theorem chars_append (first second : List Label) : chars (first ++ second) = chars first ++ chars second :=
  List.filterMap_append

@[simp] theorem changes_append (first second : List Label) :
    changes (first ++ second) = changes first ++ changes second :=
  List.filterMap_append

section Arrival

/-- The receiver after some characters. -/
def rcvState (cs : Bytes) : RcvState :=
  if cs = [] then .idle else if cs.length ≤ mbSerPduSizeMax then .rcv else .error

/-- A quiet link after the characters `cs` and the changes `fs`; the poll thread may have begun to wait. -/
def arrived (s : State) (event : Event 8) (cs : Bytes) (fs : List (Banks → Banks)) : State :=
  { s with
    event := event
    eRcvState := rcvState cs
    ucRTUBuf := place s.ucRTUBuf 0 (cs.take mbSerPduSizeMax)
    usRcvBufferPos := if cs = [] then s.usRcvBufferPos else min cs.length mbSerPduSizeMax
    timer := decide (cs ≠ [])
    banks := applied fs s.banks }

variable {s : State} {event : Event 8}

theorem arrived_nil (h : Quiet s) : arrived s s.event [] [] = s := by
  rw [arrived, rcvState, if_pos rfl, if_pos rfl, List.take_nil, place_nil, ← h.receiver]
  have ht : decide (([] : Bytes) ≠ []) = s.timer := by rw [h.timer]; rfl
  rw [ht]
  rfl

/-- One more character. -/
theorem arrived_byte (h : Quiet s) (cs : Bytes) (fs : List (Banks → Banks)) (c : U8) :
    xMBRTUReceiveFSM c (arrived s event cs fs) = arrived s event (cs ++ [c]) fs := by
  have hidle : (arrived s event cs fs).eSndState = .idle := h.transmitter
  by_cases hfirst : cs = []
  · have hr : (arrived s event cs fs).eRcvState = .idle := by simp [arrived, rcvState, hfirst]
    rw [receive_first c hidle hr]
    simp [arrived, rcvState, hfirst, mbSerPduSizeMax, place_cons]
  by_cases hroom : cs.length < mbSerPduSizeMax
  · have hr : (arrived s event cs fs).eRcvState = .rcv := by simp [arrived, rcvState, hfirst, hroom.le]
    have hpos : (arrived s event cs fs).usRcvBufferPos = cs.length := by simp [arrived, hfirst, hroom.le]
    have hfit : cs.length + 1 ≤ mbSerPduSizeMax := hroom
    have htake : (cs ++ [c]).take mbSerPduSizeMax = cs ++ [c] := List.take_of_length_le (by simpa using hfit)
    rw [receive_next c hidle hr (by rw [hpos]; exact hroom), hpos]
    simp [arrived, rcvState, htake, place_append, place_cons, List.take_of_length_le hroom.le, hfirst, hroom.le, hfit]
  · have hfull : mbSerPduSizeMax ≤ cs.length := not_lt.mp hroom
    have hover : ¬ cs.length + 1 ≤ mbSerPduSizeMax := hroom
    have htake : (cs ++ [c]).take mbSerPduSizeMax = cs.take mbSerPduSizeMax :=
      List.take_append_of_le_length hfull
    have hkept : arrived s event (cs ++ [c]) fs =
        { arrived s event cs fs with eRcvState := .error, timer := true } := by
      simp [arrived, rcvState, htake, hfirst, hover, hfull, Nat.le_succ_of_le hfull]
    rw [hkept]
    by_cases hexact : cs.length ≤ mbSerPduSizeMax
    · have hr : (arrived s event cs fs).eRcvState = .rcv := by simp [arrived, rcvState, hfirst, hexact]
      have hpos : ¬ (arrived s event cs fs).usRcvBufferPos < mbSerPduSizeMax := by simp [arrived, hfirst, hfull]
      rw [receive_full c hidle hr hpos]
    · have hr : (arrived s event cs fs).eRcvState = .error := by simp [arrived, rcvState, hfirst, hexact]
      rw [receive_waiting c hidle (Or.inr hr), ← hr]

/-- A poll that has nothing to do at most begins to wait. -/
theorem poll_free (ucMBAddress : U8) (h : Free s.event) :
    ∃ event, Free event ∧ eMBPoll ucMBAddress s = { s with event := event } := by
  rcases h.2 with hthread | hthread
  · exact ⟨recv anyEvent s.event, h.recv, by rw [eMBPoll, hthread]⟩
  · exact ⟨s.event, h, by rw [eMBPoll, hthread]⟩

/-- An event that is on its way is taken, and then worked on. -/
theorem poll_underway (ucMBAddress : U8) (e : EventType) (h : Underway e.mask s.event) :
    eMBPoll ucMBAddress s = { s with event := ⟨0#8, .resumed e.mask⟩ } ∨
      eMBPoll ucMBAddress s = handleEvent ucMBAddress (some e) { s with event := ⟨0#8, .running⟩ } := by
  obtain ⟨hset, hthread⟩ | ⟨hset, hthread⟩ := h
  · refine .inl ?_
    rw [eMBPoll, hthread]
    simp only [recv_flags hset (anyEvent_and e) (mask_ne_zero e)]
  · refine .inr ?_
    rw [eMBPoll, hthread]
    simp only [eventOf_mask, Event.resume, hset]

/-- Characters and changes in any order, with turns of the poll and of the transmit thread between them. -/
theorem run_arriving (ucMBAddress : U8) (h : Quiet s) (labels : List Label) (hl : .timer ∉ labels) :
    ∃ event, Free event ∧ run (step ucMBAddress) s labels = arrived s event (chars labels) (changes labels) := by
  induction labels using List.reverseRecOn with
  | nil => exact ⟨s.event, h.event, (arrived_nil h).symm⟩
  | append_singleton labels l ih =>
    obtain ⟨event, hevent, ih⟩ := ih fun hm => hl (List.mem_append_left _ hm)
    rw [run_append, ih, chars_append, changes_append, run_cons, run_nil]
    generalize chars labels = cs
    generalize changes labels = fs
    have hrunning : ¬ (arrived s event cs fs).stopped = true := by
      show ¬ s.fault.any Fault.stops = true
      rw [h.sound]
      decide
    cases l with
    | byte c =>
      have hrx : (arrived s event cs fs).rxEnabled = true := h.rx
      refine ⟨event, hevent, ?_⟩
      rw [step, if_neg hrunning, if_pos hrx, arrived_byte h cs fs c]
      simp [chars, changes]
    | timer => exact absurd (List.mem_append_right _ (List.mem_singleton_self _)) hl
    | transmit =>
      have htx : ((arrived s event cs fs).transStart || (arrived s event cs fs).leaving) = false := by
        show (s.transStart || s.leaving) = false
        rw [h.tx, h.leaving]
        rfl
      refine ⟨event, hevent, ?_⟩
      rw [step, if_neg hrunning, if_neg (by rw [htx]; decide)]
      simp [chars, changes]
    | poll =>
      obtain ⟨event', hevent', hpoll⟩ := poll_free (s := arrived s event cs fs) ucMBAddress hevent
      refine ⟨event', hevent', ?_⟩
      rw [step, if_neg hrunning, hpoll]
      simp [arrived, chars, changes]
    | app change =>
      refine ⟨event, hevent, ?_⟩
      rw [step, if_neg hrunning]
      simp [arrived, chars, changes, applied]

/-- The link after the pause behind the characters. -/
def ended (s : State) (event : Event 8) (cs : Bytes) (fs : List (Banks → Banks)) : State :=
  { arrived s event cs fs with
    eRcvState := .idle
    timer := false }

/-- What the pause leaves for the poll. -/
def Announced (cs : Bytes) (event : Event 8) : Prop :=
  if cs ≠ [] ∧ cs.length ≤ mbSerPduSizeMax then Underway EventType.frameReceived.mask event else Free event

/-- The pause ends a frame; one that is too long goes without an event. -/
theorem step_timer_arrived (ucMBAddress : U8) (h : Quiet s) (hevent : Free event) (cs : Bytes)
    (fs : List (Banks → Banks)) :
    ∃ event', Announced cs event' ∧ step ucMBAddress (arrived s event cs fs) .timer = ended s event' cs fs := by
  have hrunning : ¬ (arrived s event cs fs).stopped = true := by
    show ¬ s.fault.any Fault.stops = true
    rw [h.sound]
    decide
  unfold Announced
  by_cases hfirst : cs = []
  · refine ⟨event, ?_, ?_⟩
    · rw [if_neg fun hno => hno.1 hfirst]
      exact hevent
    · rw [step, if_neg hrunning]
      simp [ended, arrived, rcvState, hfirst]
  · by_cases hfit : cs.length ≤ mbSerPduSizeMax
    · refine ⟨send anyEvent EventType.frameReceived.mask event, ?_, ?_⟩
      · rw [if_pos ⟨hfirst, hfit⟩]
        exact hevent.send (anyEvent_and _) (mask_ne_zero _)
      · rw [step, if_neg hrunning]
        simp [ended, arrived, rcvState, hfirst, hfit, xMBRTUTimerT35Expired, xMBPortEventPost]
    · refine ⟨event, ?_, ?_⟩
      · rw [if_neg fun hno => hfit hno.2]
        exact hevent
      · rw [step, if_neg hrunning]
        simp [ended, arrived, rcvState, hfirst, hfit, xMBRTUTimerT35Expired]

end Arrival

section Serving

/-- What a frame in the buffer does: the reply on the line, and the registers. -/
def serve (ucMBAddress : U8) (buffer : Nat → U8) (n : Nat) (banks : Banks) : Bytes × Banks :=
  if accepted (block buffer 0 n) then
    let r := answered (pduOf buffer) (n - 3) banks
    if buffer 0 = 0#8 then ([], r.2)
    else if buffer 0 = ucMBAddress then (adu ucMBAddress r.1, r.2)
    else ([], banks)
  else ([], banks)

/-- Between the end of a frame and the next character: `s₁` is the state at the end of the frame, `fs` are the changes of
the registers since. -/
inductive Serving (ucMBAddress : U8) (s₁ : State) : List (Banks → Banks) → State → Prop
  /-- The poll has not looked at the frame. -/
  | waiting (fs : List (Banks → Banks)) (event : Event 8) (hevent : Underway EventType.frameReceived.mask event) :
      Serving ucMBAddress s₁ fs { s₁ with event := event, banks := applied fs s₁.banks }
  /-- The frame is good and for this slave. -/
  | taken (fs : List (Banks → Banks)) (event : Event 8) (hevent : Underway EventType.execute.mask event)
      (hgood : accepted (block s₁.ucRTUBuf 0 s₁.usRcvBufferPos) = true)
      (hmine : s₁.ucRTUBuf 0 = ucMBAddress ∨ s₁.ucRTUBuf 0 = 0#8) :
      Serving ucMBAddress s₁ fs { s₁ with
        event := event
        framed := true
        ucRcvAddress := s₁.ucRTUBuf 0
        usLength := s₁.usRcvBufferPos - 3
        banks := applied fs s₁.banks }
  /-- `k` characters of the reply are out. -/
  | sending (before after : List (Banks → Banks)) (k n : Nat) (s : State)
      (hblock : block s.ucRTUBuf 0 n = (serve ucMBAddress s₁.ucRTUBuf s₁.usRcvBufferPos (applied before s₁.banks)).1)
      (hk : k ≤ n) (hline : s.line = s₁.line ++ block s.ucRTUBuf 0 k)
      (hbanks : s.banks =
        applied after (serve ucMBAddress s₁.ucRTUBuf s₁.usRcvBufferPos (applied before s₁.banks)).2)
      (hcur : s.sndBufferCur = k) (hcount : s.usSndBufferCount = n - k) (hr : s.eRcvState = .idle)
      (hs : s.eSndState = .xmit) (hl : s.leaving = false) (htimer : s.timer = false) (hevent : Free s.event)
      (htx : s.transStart = true) (hsound : s.fault = none) : Serving ucMBAddress s₁ (before ++ after) s
  /-- The reply is out, or there is none. -/
  | served (before after : List (Banks → Banks)) (s : State)
      (hline : s.line =
        s₁.line ++ (serve ucMBAddress s₁.ucRTUBuf s₁.usRcvBufferPos (applied before s₁.banks)).1)
      (hbanks : s.banks =
        applied after (serve ucMBAddress s₁.ucRTUBuf s₁.usRcvBufferPos (applied before s₁.banks)).2)
      (hr : s.eRcvState = .idle) (htimer : s.timer = false)
      (hevent : Free s.event ∨ Underway EventType.frameSent.mask s.event)
      (htx : s.transStart = false) (hsound : s.fault = none) : Serving ucMBAddress s₁ (before ++ after) s

/-- A frame waits for the poll and nothing else is under way. -/
structure Pending (s₁ : State) : Prop where
  receiver : s₁.eRcvState = .idle
  transmitter : s₁.eSndState = .idle
  leaving : s₁.leaving = false
  tx : s₁.transStart = false
  timer : s₁.timer = false
  event : Underway EventType.frameReceived.mask s₁.event
  sound : s₁.fault = none
  fits : s₁.usRcvBufferPos ≤ mbSerPduSizeMax

theorem block_setPdu (buffer frame : Nat → U8) (n : Nat) : block (setPdu buffer frame) 1 n = block frame 0 n := by
  have hshift := block_comp (setPdu buffer frame) 1 0 n
  have hframe : (fun k => setPdu buffer frame (k + 1)) = frame := by
    funext k
    rw [setPdu, if_neg (Nat.succ_ne_zero k), Nat.add_sub_cancel]
  rw [hframe] at hshift
  exact hshift.symm

variable {ucMBAddress : U8} {s₁ s : State} {fs : List (Banks → Banks)}

/-- A request that needs no reply is over at once. -/
theorem serving_silent (fs : List (Banks → Banks)) (banks : Banks)
    (hserve : serve ucMBAddress s₁.ucRTUBuf s₁.usRcvBufferPos (applied fs s₁.banks) = ([], banks))
    (hline : s.line = s₁.line) (hbanks : s.banks = banks) (hr : s.eRcvState = .idle) (htimer : s.timer = false)
    (hevent : Free s.event) (htx : s.transStart = false) (hsound : s.fault = none) :
    Serving ucMBAddress s₁ fs s := by
  rw [← List.append_nil fs]
  apply Serving.served fs [] s _ _ hr htimer (.inl hevent) htx hsound
  · rw [hserve, List.append_nil, hline]
  · rw [hserve, hbanks]
    rfl

/-- A reply is ready to go out. -/
theorem serving_reply (fs : List (Banks → Banks)) (out : Bytes) (banks : Banks) (n : Nat)
    (hserve : serve ucMBAddress s₁.ucRTUBuf s₁.usRcvBufferPos (applied fs s₁.banks) = (out, banks))
    (hblock : block s.ucRTUBuf 0 n = out) (hline : s.line = s₁.line) (hbanks : s.banks = banks)
    (hcur : s.sndBufferCur = 0) (hcount : s.usSndBufferCount = n) (hr : s.eRcvState = .idle)
    (hs : s.eSndState = .xmit) (hl : s.leaving = false) (htimer : s.timer = false) (hevent : Free s.event)
    (htx : s.transStart = true) (hsound : s.fault = none) : Serving ucMBAddress s₁ fs s := by
  rw [← List.append_nil fs]
  apply Serving.sending fs [] 0 n s _ (Nat.zero_le n) _ _ hcur hcount hr hs hl htimer hevent htx hsound
  · rw [hserve, hblock]
  · rw [block_zero, List.append_nil, hline]
  · rw [hserve, hbanks]
    rfl

/-- The poll thread with nothing in hand and nothing set. -/
theorem free_running : Free (⟨0#8, .running⟩ : Event 8) := ⟨rfl, .inl rfl⟩

/-- The poll on a frame: it is dropped, or taken for execution. -/
theorem serving_frameReceived (h₁ : Pending s₁) (fs : List (Banks → Banks)) :
    Serving ucMBAddress s₁ fs
      (frameReceived ucMBAddress { s₁ with event := ⟨0#8, .running⟩, banks := applied fs s₁.banks }) := by
  rw [frameReceived, if_neg (not_lt.mpr h₁.fits), frameGood_eq]
  dsimp only
  cases hgood : accepted (block s₁.ucRTUBuf 0 s₁.usRcvBufferPos) with
  | false =>
    have hserve : serve ucMBAddress s₁.ucRTUBuf s₁.usRcvBufferPos (applied fs s₁.banks) =
        ([], applied fs s₁.banks) := by
      rw [serve, hgood]
      rfl
    exact serving_silent fs _ hserve rfl rfl h₁.receiver h₁.timer free_running h₁.tx h₁.sound
  | true =>
    rw [if_pos rfl]
    by_cases hmine : s₁.ucRTUBuf 0 = ucMBAddress ∨ s₁.ucRTUBuf 0 = 0#8
    · rw [if_pos hmine, xMBPortEventPost]
      exact Serving.taken fs _ (free_running.send (anyEvent_and _) (mask_ne_zero _)) hgood hmine
    · rw [if_neg hmine]
      push Not at hmine
      have hserve : serve ucMBAddress s₁.ucRTUBuf s₁.usRcvBufferPos (applied fs s₁.banks) =
          ([], applied fs s₁.banks) := by
        rw [serve, hgood, if_pos rfl, if_neg hmine.2, if_neg hmine.1]
      exact serving_silent fs _ hserve rfl rfl h₁.receiver h₁.timer free_running h₁.tx h₁.sound

/-- The poll executes the request. -/
theorem serving_execute (h₁ : Pending s₁) (fs : List (Banks → Banks))
    (hgood : accepted (block s₁.ucRTUBuf 0 s₁.usRcvBufferPos) = true)
    (hmine : s₁.ucRTUBuf 0 = ucMBAddress ∨ s₁.ucRTUBuf 0 = 0#8) :
    Serving ucMBAddress s₁ fs (execute ucMBAddress { s₁ with
      event := ⟨0#8, .running⟩
      framed := true
      ucRcvAddress := s₁.ucRTUBuf 0
      usLength := s₁.usRcvBufferPos - 3
      banks := applied fs s₁.banks }) := by
  rw [execute]
  dsimp only
  rw [if_neg (by decide)]
  by_cases hzero : s₁.ucRTUBuf 0 = 0#8
  · have hserve : serve ucMBAddress s₁.ucRTUBuf s₁.usRcvBufferPos (applied fs s₁.banks) =
        ([], (dispatch (pduOf s₁.ucRTUBuf) (s₁.usRcvBufferPos - 3) (applied fs s₁.banks)).banks) := by
      rw [serve, hgood, if_pos rfl, if_pos hzero, answered_eq]
      rfl
    rw [if_neg (not_not.mpr hzero)]
    exact serving_silent fs _ hserve rfl rfl h₁.receiver h₁.timer free_running h₁.tx h₁.sound
  · have hserve : serve ucMBAddress s₁.ucRTUBuf s₁.usRcvBufferPos (applied fs s₁.banks) =
        (adu ucMBAddress (answered (pduOf s₁.ucRTUBuf) (s₁.usRcvBufferPos - 3) (applied fs s₁.banks)).1,
          (answered (pduOf s₁.ucRTUBuf) (s₁.usRcvBufferPos - 3) (applied fs s₁.banks)).2) := by
      rw [serve, hgood, if_pos rfl, if_neg hzero, if_pos (hmine.resolve_right hzero)]
    rw [if_pos hzero, eMBRTUSend, if_pos h₁.receiver]
    refine serving_reply fs _ _ _ hserve ?_ rfl rfl rfl rfl h₁.receiver rfl h₁.leaving h₁.timer free_running rfl
      h₁.sound
    dsimp only
    rw [block_withCrc, block_setPdu, answered]

theorem serving_start (ucMBAddress : U8) (h₁ : Pending s₁) : Serving ucMBAddress s₁ [] s₁ :=
  Serving.waiting [] s₁.event h₁.event

theorem serving_live (h₁ : Pending s₁) (h : Serving ucMBAddress s₁ fs s) : s.fault = none ∧ s.timer = false := by
  cases h with
  | waiting => exact ⟨h₁.sound, h₁.timer⟩
  | taken => exact ⟨h₁.sound, h₁.timer⟩
  | sending _ _ _ _ _ _ _ _ _ _ _ _ _ _ htimer _ _ hsound => exact ⟨hsound, htimer⟩
  | served _ _ _ _ _ _ htimer _ _ hsound => exact ⟨hsound, htimer⟩

theorem serving_app (h : Serving ucMBAddress s₁ fs s) (change : Banks → Banks) :
    Serving ucMBAddress s₁ (fs ++ [change]) { s with banks := change s.banks } := by
  have happlied : ∀ fs' banks, change (applied fs' banks) = applied (fs' ++ [change]) banks := by
    intro fs' banks
    rw [applied_append]
    rfl
  cases h with
  | waiting _ event hevent =>
    rw [happlied]
    exact Serving.waiting (fs ++ [change]) event hevent
  | taken _ event hevent hgood hmine =>
    rw [happlied]
    exact Serving.taken (fs ++ [change]) event hevent hgood hmine
  | sending before after k n _ hblock hk hline hbanks hcur hcount hr hs hl htimer hevent htx hsound =>
    rw [List.append_assoc]
    exact Serving.sending before (after ++ [change]) k n _ hblock hk hline (by rw [hbanks, happlied]) hcur hcount hr hs
      hl htimer hevent htx hsound
  | served before after _ hline hbanks hr htimer hevent htx hsound =>
    rw [List.append_assoc]
    exact Serving.served before (after ++ [change]) _ hline (by rw [hbanks, happlied]) hr htimer hevent htx hsound

theorem serving_transmit (h₁ : Pending s₁) (h : Serving ucMBAddress s₁ fs s)
    (hon : (s.transStart || s.leaving) = true) : Serving ucMBAddress s₁ fs (xMBRTUTransmitFSM s) := by
  cases h with
  | waiting =>
    rw [h₁.tx, h₁.leaving] at hon
    cases hon
  | taken =>
    rw [h₁.tx, h₁.leaving] at hon
    cases hon
  | sending before after k n _ hblock hk hline hbanks hcur hcount hr hs hl htimer hevent htx hsound =>
    by_cases hdone : k = n
    · have hstep : xMBRTUTransmitFSM s = { s with
          event := send anyEvent EventType.frameSent.mask s.event
          rxEnabled := true
          transStart := false
          leaving := true } := by
        simp [xMBRTUTransmitFSM, hl, hr, hs, hcount, hdone, xMBPortEventPost]
      rw [hstep]
      exact Serving.served before after _ (by rw [← hblock, ← hdone]; exact hline) hbanks hr htimer
        (.inr (hevent.send (anyEvent_and _) (mask_ne_zero _))) rfl hsound
    · have hmore : n - k ≠ 0 := by omega
      have hstep : xMBRTUTransmitFSM s = { s with
          line := s.line ++ [s.ucRTUBuf k]
          sndBufferCur := k + 1
          usSndBufferCount := n - k - 1 } := by
        simp [xMBRTUTransmitFSM, hl, hr, hs, hcount, hmore, hcur]
      rw [hstep]
      refine Serving.sending before after (k + 1) n _ hblock (by omega) ?_ hbanks rfl (by dsimp only; omega) hr hs hl
        htimer hevent htx hsound
      dsimp only
      rw [hline, block_add, List.append_assoc, Nat.zero_add]
      rfl
  | served before after _ hline hbanks hr htimer hevent htx hsound =>
    have hl : s.leaving = true := by rwa [htx, Bool.false_or] at hon
    have hstep : xMBRTUTransmitFSM s = { s with eSndState := .idle, leaving := false } := by
      rw [xMBRTUTransmitFSM, if_pos hl]
    rw [hstep]
    exact Serving.served before after _ hline hbanks hr htimer hevent htx hsound

theorem serving_poll (h₁ : Pending s₁) (h : Serving ucMBAddress s₁ fs s) :
    Serving ucMBAddress s₁ fs (eMBPoll ucMBAddress s) := by
  cases h with
  | waiting _ event hevent =>
    obtain hpoll | hpoll := poll_underway (s := { s₁ with event := event, banks := applied fs s₁.banks }) ucMBAddress
      .frameReceived hevent
    · rw [hpoll]
      exact Serving.waiting fs _ (.inr ⟨rfl, rfl⟩)
    · rw [hpoll]
      exact serving_frameReceived h₁ fs
  | taken _ event hevent hgood hmine =>
    obtain hpoll | hpoll := poll_underway (s := { s₁ with
      event := event
      framed := true
      ucRcvAddress := s₁.ucRTUBuf 0
      usLength := s₁.usRcvBufferPos - 3
      banks := applied fs s₁.banks }) ucMBAddress .execute hevent
    · rw [hpoll]
      exact Serving.taken fs _ (.inr ⟨rfl, rfl⟩) hgood hmine
    · rw [hpoll]
      exact serving_execute h₁ fs hgood hmine
  | sending before after k n _ hblock hk hline hbanks hcur hcount hr hs hl htimer hevent htx hsound =>
    obtain ⟨event, hfree, hpoll⟩ := poll_free ucMBAddress hevent
    rw [hpoll]
    exact Serving.sending before after k n _ hblock hk hline hbanks hcur hcount hr hs hl htimer hfree htx hsound
  | served before after _ hline hbanks hr htimer hevent htx hsound =>
    have hdone (event : Event 8) (hnext : Free event ∨ Underway EventType.frameSent.mask event) :
        Serving ucMBAddress s₁ (before ++ after) { s with event := event } :=
      Serving.served before after _ hline hbanks hr htimer hnext htx hsound
    rcases hevent with hevent | hevent
    · obtain ⟨event, hfree, hpoll⟩ := poll_free ucMBAddress hevent
      rw [hpoll]
      exact hdone event (.inl hfree)
    · obtain hpoll | hpoll := poll_underway ucMBAddress .frameSent hevent
      · rw [hpoll]
        exact hdone _ (.inr (.inr ⟨rfl, rfl⟩))
      · rw [hpoll]
        exact hdone _ (.inl free_running)

/-- Any step but a character. -/
theorem serving_step (h₁ : Pending s₁) (h : Serving ucMBAddress s₁ fs s) (l : Label) (hl : ∀ c, l ≠ .byte c) :
    Serving ucMBAddress s₁ (fs ++ changes [l]) (step ucMBAddress s l) := by
  obtain ⟨hsound, htimer⟩ := serving_live h₁ h
  have hlive : ¬ s.stopped = true := by
    rw [State.stopped, hsound]
    decide
  cases l with
  | byte c => exact absurd rfl (hl c)
  | timer =>
    rw [step, if_neg hlive, htimer]
    simpa [changes] using h
  | transmit =>
    rw [step, if_neg hlive]
    by_cases hon : (s.transStart || s.leaving) = true
    · simpa [changes, hon] using serving_transmit h₁ h hon
    · simpa [changes, hon] using h
  | poll =>
    rw [step, if_neg hlive]
    simpa [changes] using serving_poll h₁ h
  | app change =>
    rw [step, if_neg hlive]
    exact serving_app h change

theorem serving_run (h₁ : Pending s₁) (labels : List Label) (hl : ∀ c, .byte c ∉ labels)
    (h : Serving ucMBAddress s₁ fs s) :
    Serving ucMBAddress s₁ (fs ++ changes labels) (run (step ucMBAddress) s labels) := by
  induction labels generalizing fs s with
  | nil => simpa [changes] using h
  | cons l labels ih =>
    have hstep := serving_step h₁ h l fun c he => hl c (he ▸ List.mem_cons_self)
    have hrest := ih (fun c hm => hl c (List.mem_cons_of_mem l hm)) hstep
    rwa [List.append_assoc, ← changes_append, List.singleton_append] at hrest

/-- Once the link is quiet the frame has been served, at one point between the changes. -/
theorem served_of_quiet (h : Serving ucMBAddress s₁ fs s) (hq : Quiet s) :
    ∃ before after, fs = before ++ after ∧
      s.line = s₁.line ++ (serve ucMBAddress s₁.ucRTUBuf s₁.usRcvBufferPos (applied before s₁.banks)).1 ∧
      s.banks = applied after (serve ucMBAddress s₁.ucRTUBuf s₁.usRcvBufferPos (applied before s₁.banks)).2 := by
  cases h with
  | waiting _ event hevent => exact absurd hq.event (hevent.not_free (mask_ne_zero _))
  | taken _ event hevent => exact absurd hq.event (hevent.not_free (mask_ne_zero _))
  | sending _ _ _ _ _ _ _ _ _ _ _ _ hs =>
    rw [hq.transmitter] at hs
    cases hs
  | served before after _ hline hbanks => exact ⟨before, after, rfl, hline, hbanks⟩

end Serving

section Turns

variable {ucMBAddress : U8} {s : State}

theorem pending_ended (h : Quiet s) (event : Event 8) (cs : Bytes) (fs : List (Banks → Banks)) (hne : cs ≠ [])
    (hfit : cs.length ≤ mbSerPduSizeMax) (hevent : Announced cs event) : Pending (ended s event cs fs) where
  receiver := rfl
  transmitter := h.transmitter
  leaving := h.leaving
  tx := h.tx
  timer := rfl
  event := by rwa [Announced, if_pos ⟨hne, hfit⟩] at hevent
  sound := h.sound
  fits := by simp [ended, arrived, hne]

/-- Without characters, or with too many of them, the pause leaves the link quiet. -/
theorem quiet_ended (h : Quiet s) (event : Event 8) (cs : Bytes) (fs : List (Banks → Banks))
    (hno : ¬ (cs ≠ [] ∧ cs.length ≤ mbSerPduSizeMax)) (hevent : Announced cs event) :
    Quiet (ended s event cs fs) where
  receiver := rfl
  transmitter := h.transmitter
  leaving := h.leaving
  rx := h.rx
  tx := h.tx
  timer := rfl
  event := by rwa [Announced, if_neg hno] at hevent
  sound := h.sound

theorem Quiet.running (h : Quiet s) : ¬ s.stopped = true := by
  rw [State.stopped, h.sound]
  decide

theorem quiet_step (ucMBAddress : U8) (h : Quiet s) (l : Label) (hl : ∀ c, l ≠ .byte c) :
    Quiet (step ucMBAddress s l) ∧ (step ucMBAddress s l).line = s.line ∧
      (step ucMBAddress s l).banks = applied (changes [l]) s.banks := by
  have hstays (event : Event 8) (hfree : Free event) (hs : step ucMBAddress s l = { s with event := event })
      (hc : changes [l] = []) : Quiet (step ucMBAddress s l) ∧ (step ucMBAddress s l).line = s.line ∧
        (step ucMBAddress s l).banks = applied (changes [l]) s.banks := by
    rw [hs, hc]
    exact ⟨{ h with event := hfree }, rfl, rfl⟩
  cases l with
  | byte c => exact absurd rfl (hl c)
  | timer =>
    refine hstays s.event h.event ?_ rfl
    rw [step, if_neg h.running, if_neg (by rw [h.timer]; decide)]
  | transmit =>
    refine hstays s.event h.event ?_ rfl
    rw [step, if_neg h.running, if_neg (by rw [h.tx, h.leaving]; decide)]
  | poll =>
    obtain ⟨event, hfree, hpoll⟩ := poll_free ucMBAddress h.event
    refine hstays event hfree ?_ rfl
    rw [step, if_neg h.running, hpoll]
  | app change =>
    rw [step, if_neg h.running]
    exact ⟨{ h with }, rfl, rfl⟩

/-- Without a frame, only the registers change. -/
theorem quiet_run (ucMBAddress : U8) (h : Quiet s) (labels : List Label) (hl : ∀ c, .byte c ∉ labels) :
    Quiet (run (step ucMBAddress) s labels) ∧ (run (step ucMBAddress) s labels).line = s.line ∧
      (run (step ucMBAddress) s labels).banks = applied (changes labels) s.banks := by
  induction labels generalizing s with
  | nil => exact ⟨h, rfl, rfl⟩
  | cons l labels ih =>
    obtain ⟨hquiet, hline, hbanks⟩ := quiet_step ucMBAddress h l fun c he => hl c (he ▸ List.mem_cons_self)
    obtain ⟨hend, hline', hbanks'⟩ := ih hquiet fun c hm => hl c (List.mem_cons_of_mem l hm)
    refine ⟨hend, hline'.trans hline, ?_⟩
    rw [run_cons, hbanks', hbanks, ← applied_append, ← changes_append, List.singleton_append]

/-- The characters of one frame, the pause behind it, and what follows until the next one. -/
structure Turn where
  arriving : List Label
  rest : List Label

def Turn.labels (t : Turn) : List Label := t.arriving ++ .timer :: t.rest

/-- The host keeps the rules: no pause within a frame, no character before the link is quiet again. -/
structure Fair (ucMBAddress : U8) (s : State) (t : Turn) : Prop where
  gapless : .timer ∉ t.arriving
  alone : ∀ c, .byte c ∉ t.rest
  finished : Quiet (run (step ucMBAddress) s t.labels)

/-- The link behind the pause that ends a frame. -/
theorem run_pause (ucMBAddress : U8) (h : Quiet s) (labels : List Label) (hl : .timer ∉ labels) :
    ∃ event, Announced (chars labels) event ∧
      run (step ucMBAddress) s (labels ++ [.timer]) = ended s event (chars labels) (changes labels) := by
  obtain ⟨event, hfree, harrived⟩ := run_arriving ucMBAddress h labels hl
  obtain ⟨event', hevent, htimer⟩ := step_timer_arrived ucMBAddress h hfree (chars labels) (changes labels)
  refine ⟨event', hevent, ?_⟩
  rw [run_append, harrived, run_cons, htimer, run_nil]

theorem run_turn (ucMBAddress : U8) (s : State) (t : Turn) :
    run (step ucMBAddress) s t.labels =
      run (step ucMBAddress) (run (step ucMBAddress) s (t.arriving ++ [.timer])) t.rest := by
  rw [Turn.labels, ← run_append, List.append_assoc, List.singleton_append]

theorem changes_turn (t : Turn) : changes t.labels = changes t.arriving ++ changes t.rest := by
  rw [Turn.labels, changes_append]
  rfl

/-- A turn serves its frame at one point between the changes of the registers, whatever the schedule, and not before
the frame is complete. -/
theorem turn_served (h : Quiet s) (t : Turn) (hfair : Fair ucMBAddress s t) (hne : chars t.arriving ≠ [])
    (hfit : (chars t.arriving).length ≤ mbSerPduSizeMax) :
    ∃ before after, changes t.rest = before ++ after ∧
      (run (step ucMBAddress) s t.labels).line = s.line ++
        (serve ucMBAddress (place s.ucRTUBuf 0 (chars t.arriving)) (chars t.arriving).length
          (applied (changes t.arriving ++ before) s.banks)).1 ∧
      (run (step ucMBAddress) s t.labels).banks = applied after
        (serve ucMBAddress (place s.ucRTUBuf 0 (chars t.arriving)) (chars t.arriving).length
          (applied (changes t.arriving ++ before) s.banks)).2 := by
  obtain ⟨event, hevent, hpause⟩ := run_pause ucMBAddress h t.arriving hfair.gapless
  have hrun := run_turn ucMBAddress s t
  rw [hpause] at hrun
  have hpending := pending_ended h event (chars t.arriving) (changes t.arriving) hne hfit hevent
  have hserving := serving_run hpending t.rest hfair.alone (serving_start ucMBAddress hpending)
  rw [List.nil_append] at hserving
  have hquiet := hfair.finished
  rw [hrun] at hquiet ⊢
  obtain ⟨before, after, hsplit, hline, hbanks⟩ := served_of_quiet hserving hquiet
  have hbuffer : (ended s event (chars t.arriving) (changes t.arriving)).ucRTUBuf =
      place s.ucRTUBuf 0 (chars t.arriving) := by
    rw [ended, arrived, List.take_of_length_le hfit]
  have hpos : (ended s event (chars t.arriving) (changes t.arriving)).usRcvBufferPos = (chars t.arriving).length := by
    simp [ended, arrived, hne, hfit]
  have hpast : applied before (ended s event (chars t.arriving) (changes t.arriving)).banks =
      applied (changes t.arriving ++ before) s.banks := by
    rw [applied_append]
    rfl
  rw [hbuffer, hpos, hpast] at hline hbanks
  exact ⟨before, after, hsplit, hline, hbanks⟩

end Turns

section Sessions

/-- The point at which a request is served, or a change of the registers by another thread. -/
inductive Op where
  | request (address : U8) (r : Request)
  | change (f : Banks → Banks)

/-- The slave as a server: what has gone out, and the registers. -/
def Op.serve (ucMBAddress : U8) (server : Bytes × Banks) : Op → Bytes × Banks
  | .request address r =>
    if address = 0#8 then (server.1, (respond r server.2).2)
    else if address = ucMBAddress then
      (server.1 ++ adu ucMBAddress (respond r server.2).1, (respond r server.2).2)
    else server
  | .change f => (server.1, f server.2)

def requestsOf (ops : List Op) : List (U8 × Request) :=
  ops.filterMap fun
    | .request address r => some (address, r)
    | .change _ => none

def changesOf (ops : List Op) : List (Banks → Banks) :=
  ops.filterMap fun
    | .request _ _ => none
    | .change f => some f

/-- The characters of a turn are a request for some slave, or nothing that a slave accepts. -/
def Carries (cs : Bytes) : Option (U8 × Request) → Prop
  | some (address, r) => cs = adu address r.pdu ∧ cs.length ≤ mbSerPduSizeMax
  | none => mbSerPduSizeMax < cs.length ∨ accepted cs = false

theorem run_changes (ucMBAddress : U8) (server : Bytes × Banks) (fs : List (Banks → Banks)) :
    run (Op.serve ucMBAddress) server (fs.map .change) = (server.1, applied fs server.2) := by
  induction fs generalizing server with
  | nil => rfl
  | cons f fs ih =>
    rw [List.map_cons, run_cons, ih]
    rfl

/-- A request in the buffer is served as the service says. -/
theorem serve_adu (ucMBAddress address : U8) (r : Request) (buffer : Nat → U8) (banks : Banks) (out : Bytes)
    (hfit : (adu address r.pdu).length ≤ mbSerPduSizeMax) :
    (out ++ (serve ucMBAddress (place buffer 0 (adu address r.pdu)) (adu address r.pdu).length banks).1,
      (serve ucMBAddress (place buffer 0 (adu address r.pdu)) (adu address r.pdu).length banks).2) =
      Op.serve ucMBAddress (out, banks) (.request address r) := by
  have hlen : r.pdu.length ≤ 253 := by
    rw [adu_length, mbSerPduSizeMax] at hfit
    omega
  have hblock := block_place buffer 0 (adu address r.pdu)
  rw [adu_length] at hblock
  obtain ⟨hfirst, hpdu⟩ := adu_cells _ address r.pdu hblock
  have hanswer := answered_request r _ banks hlen hpdu
  have hgood := accepted_adu address r.pdu (List.cons_ne_nil _ _)
  rw [serve, block_place, hgood, if_pos rfl, hfirst, adu_length, Nat.add_sub_cancel]
  dsimp only
  rw [hanswer, Op.serve]
  by_cases hzero : address = 0#8
  · rw [if_pos hzero, if_pos hzero, List.append_nil]
  · rw [if_neg hzero, if_neg hzero]
    by_cases hmine : address = ucMBAddress
    · rw [if_pos hmine, if_pos hmine]
    · rw [if_neg hmine, if_neg hmine, List.append_nil]

@[simp] theorem requestsOf_changes (fs : List (Banks → Banks)) : requestsOf (fs.map .change) = [] := by
  rw [requestsOf, List.filterMap_map]
  exact List.filterMap_eq_nil_iff.mpr fun _ _ => rfl

@[simp] theorem changesOf_changes (fs : List (Banks → Banks)) : changesOf (fs.map .change) = fs := by
  rw [changesOf, List.filterMap_map]
  exact List.filterMap_some

theorem requestsOf_around (before after : List (Banks → Banks)) (address : U8) (r : Request) :
    requestsOf (before.map .change ++ .request address r :: after.map .change) = [(address, r)] := by
  have hparts : requestsOf (before.map .change ++ .request address r :: after.map .change) =
      requestsOf (before.map .change) ++ (address, r) :: requestsOf (after.map .change) :=
    List.filterMap_append
  rw [hparts, requestsOf_changes, requestsOf_changes, List.nil_append]

theorem changesOf_around (before after : List (Banks → Banks)) (address : U8) (r : Request) :
    changesOf (before.map .change ++ .request address r :: after.map .change) = before ++ after := by
  have hparts : changesOf (before.map .change ++ .request address r :: after.map .change) =
      changesOf (before.map .change) ++ changesOf (after.map .change) :=
    List.filterMap_append
  rw [hparts, changesOf_changes, changesOf_changes]

/-- The operations of a turn are its request, if it carries one, and its changes. -/
def Behind (t : Turn × Option (U8 × Request)) (ops : List Op) : Prop :=
  requestsOf ops = t.2.toList ∧ changesOf ops = changes t.1.labels

/-- One turn is one request of the server, somewhere between the changes of the registers. -/
theorem turn_ops (ucMBAddress : U8) (s : State) (h : Quiet s) (t : Turn) (content : Option (U8 × Request))
    (hfair : Fair ucMBAddress s t) (hcontent : Carries (chars t.arriving) content) :
    ∃ ops, Behind (t, content) ops ∧ run (Op.serve ucMBAddress) (s.line, s.banks) ops =
      ((run (step ucMBAddress) s t.labels).line, (run (step ucMBAddress) s t.labels).banks) := by
  cases content with
  | some frame =>
    obtain ⟨address, r⟩ := frame
    obtain ⟨hframe, hfit⟩ := hcontent
    have hne : chars t.arriving ≠ [] := by
      rw [hframe]
      exact List.cons_ne_nil _ _
    obtain ⟨before, after, hchanges, hline, hbanks⟩ := turn_served h t hfair hne hfit
    rw [hframe] at hfit
    rw [hframe] at hline hbanks
    refine ⟨(changes t.arriving ++ before).map .change ++ .request address r :: after.map .change, ⟨?_, ?_⟩, ?_⟩
    · rw [requestsOf_around]
      rfl
    · rw [changesOf_around, changes_turn, hchanges, List.append_assoc]
    · rw [run_append, run_changes, run_cons, ← serve_adu ucMBAddress address r s.ucRTUBuf _ _ hfit, run_changes, hline,
        hbanks]
  | none =>
    refine ⟨(changes t.labels).map .change, ⟨requestsOf_changes _, changesOf_changes _⟩, ?_⟩
    rw [run_changes]
    by_cases hsome : chars t.arriving ≠ [] ∧ (chars t.arriving).length ≤ mbSerPduSizeMax
    · obtain ⟨before, after, hchanges, hline, hbanks⟩ := turn_served h t hfair hsome.1 hsome.2
      have hbad : accepted (chars t.arriving) = false := hcontent.resolve_left (not_lt.mpr hsome.2)
      rw [serve, block_place, hbad, if_neg (by decide)] at hline hbanks
      rw [hline, hbanks, changes_turn, hchanges, ← List.append_assoc, applied_append, List.append_nil]
    · obtain ⟨event, hevent, hpause⟩ := run_pause ucMBAddress h t.arriving hfair.gapless
      have hquiet := quiet_ended h event (chars t.arriving) (changes t.arriving) hsome hevent
      obtain ⟨-, hline, hbanks⟩ := quiet_run ucMBAddress hquiet t.rest hfair.alone
      rw [run_turn, hpause, hline, hbanks, changes_turn, applied_append]
      rfl

/-- Under a host that waits, every schedule of every session ends as a server ends that takes the requests one by one:
each within its turn, each at one point between the changes that other threads make to the registers. -/
theorem session_linear (ucMBAddress : U8) (s : State) (h : Quiet s) (turns : List (Turn × Option (U8 × Request)))
    (hturns : Allowed (fun s t => run (step ucMBAddress) s t.1.labels)
      (fun s t => Fair ucMBAddress s t.1 ∧ Carries (chars t.1.arriving) t.2) s turns) :
    ∃ history : List (List Op), List.Forall₂ Behind turns history ∧
      run (Op.serve ucMBAddress) (s.line, s.banks) history.flatten =
        ((run (step ucMBAddress) s (turns.flatMap fun t => t.1.labels)).line,
          (run (step ucMBAddress) s (turns.flatMap fun t => t.1.labels)).banks) := by
  induction turns generalizing s with
  | nil => exact ⟨[], .nil, rfl⟩
  | cons t turns ih =>
    obtain ⟨⟨hfair, hcontent⟩, hrest⟩ := hturns
    obtain ⟨first, hfirst, hrun⟩ := turn_ops ucMBAddress s h t.1 t.2 hfair hcontent
    obtain ⟨history, hhistory, hrun'⟩ := ih _ hfair.finished hrest
    refine ⟨first :: history, .cons hfirst hhistory, ?_⟩
    rw [List.flatten_cons, run_append, hrun, hrun', List.flatMap_cons, run_append]

end Sessions

end DataReceiveRelay.ModbusSession
