import DataReceiveRelay.EventFlags
import DataReceiveRelay.ModbusService
import DataReceiveRelay.Runs

/-!
# The serial link of the slave

Three contexts share the frame buffer: the receive interrupt with its timer,
the thread that stands in for the transmit interrupt, and the poll thread. They
meet in two state variables, the enable bits of the port and an event. An event
that is posted while the poll thread waits is handed to it at once; others are
collected until it asks again, and then it looks for exactly one.

A failed assertion stops the program. A poll that is handed two events goes on
with a variable that nobody has set.
-/

namespace DataReceiveRelay.ModbusRtu

open Words Runs Blocks EventFlags ModbusCrc ModbusFunctions ModbusCoils ModbusService

inductive RcvState where
  | init | idle | rcv | error
  deriving DecidableEq, Repr

inductive SndState where
  | idle | xmit
  deriving DecidableEq, Repr

inductive EventType where
  | ready | frameReceived | execute | frameSent
  deriving DecidableEq, Repr

def EventType.mask : EventType → U8
  | .ready => 1#8
  | .frameReceived => 2#8
  | .execute => 4#8
  | .frameSent => 8#8

/-- What the poll thread waits for. -/
def anyEvent : U8 :=
  EventType.ready.mask ||| EventType.frameReceived.mask ||| EventType.execute.mask ||| EventType.frameSent.mask

inductive Fault where
  | assertion | nullPointer | uninitialised
  deriving DecidableEq, Repr

/-- Only the variable that nobody has set lets the program go on. -/
def Fault.stops : Fault → Bool
  | .uninitialised => false
  | _ => true

def mbSerPduSizeMax : Nat := 256

structure State where
  eRcvState : RcvState
  eSndState : SndState
  ucRTUBuf : Nat → U8
  usRcvBufferPos : Nat
  /-- `pucSndBufferCur`, as an index into the buffer. -/
  sndBufferCur : Nat
  usSndBufferCount : Nat
  rxEnabled : Bool
  /-- `EVENT_SERIAL_TRANS_START`. -/
  transStart : Bool
  /-- The transmit thread has enabled the receiver and not yet left `STATE_TX_XMIT`. -/
  leaving : Bool
  timer : Bool
  /-- `xSlaveOsEvent`, for which the poll thread waits. -/
  event : Event 8
  /-- `ucMBFrame` points into the buffer. -/
  framed : Bool
  ucRcvAddress : U8
  usLength : Nat
  banks : Banks
  /-- What has been sent so far. -/
  line : Bytes
  /-- What `eEvent` holds in the calls to come that assign nothing to it. -/
  unassigned : Nat → Option EventType
  fault : Option Fault

/-- The state that `eMBRTUStart` leaves. -/
def start (banks : Banks) (buffer : Nat → U8) (unassigned : Nat → Option EventType) : State :=
  ⟨.init, .idle, buffer, 0, 0, 0, true, false, false, true, ⟨0#8, .running⟩, false, 0#8, 0, banks, [], unassigned, none⟩

def xMBPortEventPost (e : EventType) (s : State) : State := { s with event := send anyEvent e.mask s.event }

/-- The `switch` of `xMBPortEventGet`. -/
def eventOf (recvedEvent : U8) : Option EventType :=
  if recvedEvent = 1#8 then some .ready
  else if recvedEvent = 2#8 then some .frameReceived
  else if recvedEvent = 4#8 then some .execute
  else if recvedEvent = 8#8 then some .frameSent
  else none

/-- `xMBRTUReceiveFSM` on the character that has arrived. -/
def xMBRTUReceiveFSM (ucByte : U8) (s : State) : State :=
  if s.eSndState ≠ .idle then { s with fault := some .assertion }
  else
    match s.eRcvState with
    | .init => { s with timer := true }
    | .error => { s with timer := true }
    | .idle =>
      { s with ucRTUBuf := Function.update s.ucRTUBuf 0 ucByte, usRcvBufferPos := 1, eRcvState := .rcv, timer := true }
    | .rcv =>
      if s.usRcvBufferPos < mbSerPduSizeMax then
        { s with ucRTUBuf := Function.update s.ucRTUBuf s.usRcvBufferPos ucByte,
                 usRcvBufferPos := s.usRcvBufferPos + 1, timer := true }
      else { s with eRcvState := .error, timer := true }

def xMBRTUTimerT35Expired (s : State) : State :=
  match s.eRcvState with
  | .init => { xMBPortEventPost .ready s with timer := false, eRcvState := .idle }
  | .rcv => { xMBPortEventPost .frameReceived s with timer := false, eRcvState := .idle }
  | .error => { s with timer := false, eRcvState := .idle }
  | .idle => { s with fault := some .assertion }

/-- `xMBRTUTransmitFSM`. The end of a transmission takes two steps: the receiver is enabled before the state changes. -/
def xMBRTUTransmitFSM (s : State) : State :=
  if s.leaving then { s with eSndState := .idle, leaving := false }
  else if s.eRcvState ≠ .idle then { s with fault := some .assertion }
  else
    match s.eSndState with
    | .idle => { s with rxEnabled := true, transStart := false }
    | .xmit =>
      if s.usSndBufferCount ≠ 0 then
        { s with line := s.line ++ [s.ucRTUBuf s.sndBufferCur], sndBufferCur := s.sndBufferCur + 1,
                 usSndBufferCount := s.usSndBufferCount - 1 }
      else { xMBPortEventPost .frameSent s with rxEnabled := true, transStart := false, leaving := true }

/-- Length and checksum of what has been received. -/
def frameGood (s : State) : Bool :=
  decide (4 ≤ s.usRcvBufferPos) && usMBCRC16 (block s.ucRTUBuf 0 s.usRcvBufferPos) == 0#16

/-- `eMBRTUReceive` and the address test behind it. -/
def frameReceived (ucMBAddress : U8) (s : State) : State :=
  if mbSerPduSizeMax < s.usRcvBufferPos then { s with fault := some .assertion }
  else if frameGood s then
    let s' := { s with ucRcvAddress := s.ucRTUBuf 0, usLength := s.usRcvBufferPos - 3, framed := true }
    if s.ucRTUBuf 0 = ucMBAddress ∨ s.ucRTUBuf 0 = 0#8 then xMBPortEventPost .execute s' else s'
  else s

/-- The Modbus PDU starts behind the address. -/
def pduOf (buffer : Nat → U8) : Nat → U8 := fun k => buffer (k + 1)

def setPdu (buffer frame : Nat → U8) : Nat → U8 := fun j => if j = 0 then buffer 0 else frame (j - 1)

/-- A frame with its address and checksum in the buffer. -/
def withCrc (buffer : Nat → U8) (count : Nat) : Nat → U8 :=
  Function.update (Function.update buffer count (lowByte (usMBCRC16 (block buffer 0 count)))) (count + 1)
    (highByte (usMBCRC16 (block buffer 0 count)))

/-- `eMBRTUSend`; a reply that comes too late is dropped. -/
def eMBRTUSend (ucSlaveAddress : U8) (s : State) : State :=
  if s.eRcvState = .idle then
    { s with ucRTUBuf := withCrc (Function.update s.ucRTUBuf 0 ucSlaveAddress) (1 + s.usLength), sndBufferCur := 0,
             usSndBufferCount := 1 + s.usLength + 2, eSndState := .xmit, rxEnabled := false, transStart := true }
  else s

/-- The case `EV_EXECUTE`: an error frame is built, and anything sent, only where the request was not a broadcast. -/
def execute (ucMBAddress : U8) (s : State) : State :=
  let outcome := dispatch (pduOf s.ucRTUBuf) s.usLength s.banks
  if s.framed = false then { s with fault := some .nullPointer }
  else if s.ucRcvAddress ≠ 0#8 then
    let r := reply (pduOf s.ucRTUBuf) s.usLength s.banks
    eMBRTUSend ucMBAddress { s with ucRTUBuf := setPdu s.ucRTUBuf r.1, usLength := r.2.1, banks := r.2.2 }
  else
    { s with ucRTUBuf := setPdu s.ucRTUBuf outcome.frame, usLength := outcome.usLen, banks := outcome.banks }

/-- The `switch` of `eMBPoll`, on any value of `eEvent`. -/
def handleEvent (ucMBAddress : U8) (eEvent : Option EventType) (s : State) : State :=
  match eEvent with
  | some .frameReceived => frameReceived ucMBAddress s
  | some .execute => execute ucMBAddress s
  | _ => s

/-- A turn of the poll thread in `eMBPoll`, with the stack enabled: it asks for an event, or works on what it has been
handed. -/
def eMBPoll (ucMBAddress : U8) (s : State) : State :=
  match s.event.thread with
  | .suspended => s
  | .running => { s with event := recv anyEvent s.event }
  | .resumed recvedEvent =>
    let s' := { s with event := s.event.resume }
    match eventOf recvedEvent with
    | some e => handleEvent ucMBAddress (some e) s'
    | none => handleEvent ucMBAddress (s.unassigned 0)
        { s' with unassigned := fun n => s.unassigned (n + 1), fault := some .uninitialised }

inductive Label where
  /-- The receive interrupt with a character. -/
  | byte (c : U8)
  /-- The timer of three and a half characters. -/
  | timer
  /-- A turn of the transmit thread. -/
  | transmit
  /-- A turn of the poll thread. -/
  | poll
  /-- Another thread works on the registers. -/
  | app (change : Banks → Banks)

def State.stopped (s : State) : Bool := s.fault.any Fault.stops

/-- One step; what is not enabled does not happen. -/
def step (ucMBAddress : U8) (s : State) (l : Label) : State :=
  if s.stopped then s
  else
    match l with
    | .byte c => if s.rxEnabled then xMBRTUReceiveFSM c s else s
    | .timer => if s.timer then xMBRTUTimerT35Expired s else s
    | .transmit => if s.transStart || s.leaving then xMBRTUTransmitFSM s else s
    | .poll => eMBPoll ucMBAddress s
    | .app change => { s with banks := change s.banks }

theorem step_stopped {ucMBAddress : U8} {s : State} {l : Label} (h : s.stopped = true) : step ucMBAddress s l = s := by
  cases l <;> rw [step, if_pos h]

section Receiver

variable {s : State} (c : U8) (hidle : s.eSndState = .idle)
include hidle

theorem receive_waiting (hr : s.eRcvState = .init ∨ s.eRcvState = .error) :
    xMBRTUReceiveFSM c s = { s with timer := true } := by
  rcases hr with hr | hr <;> simp [xMBRTUReceiveFSM, hidle, hr]

theorem receive_first (hr : s.eRcvState = .idle) :
    xMBRTUReceiveFSM c s = { s with
      ucRTUBuf := Function.update s.ucRTUBuf 0 c
      usRcvBufferPos := 1
      eRcvState := .rcv
      timer := true } := by
  simp [xMBRTUReceiveFSM, hidle, hr]

theorem receive_next (hr : s.eRcvState = .rcv) (hroom : s.usRcvBufferPos < mbSerPduSizeMax) :
    xMBRTUReceiveFSM c s = { s with
      ucRTUBuf := Function.update s.ucRTUBuf s.usRcvBufferPos c
      usRcvBufferPos := s.usRcvBufferPos + 1
      timer := true } := by
  simp [xMBRTUReceiveFSM, hidle, hr, hroom]

theorem receive_full (hr : s.eRcvState = .rcv) (hroom : ¬ s.usRcvBufferPos < mbSerPduSizeMax) :
    xMBRTUReceiveFSM c s = { s with eRcvState := .error, timer := true } := by
  simp [xMBRTUReceiveFSM, hidle, hr, hroom]

end Receiver

section Buffer

/-- What the contexts keep between them, whatever has happened. -/
structure Intact (buffer : Nat → U8) (s : State) : Prop where
  timer : s.timer = true ↔ s.eRcvState ≠ .idle
  received : s.usRcvBufferPos ≤ mbSerPduSizeMax
  ports : s.rxEnabled = !s.transStart
  transmitting : s.transStart = true → s.eRcvState = .idle
  sending : s.eSndState = .xmit → s.leaving = true ∨ s.transStart = true
  leaving : s.leaving = true → s.eSndState = .xmit ∧ s.eRcvState = .idle
  length : s.usLength ≤ 253
  sent : s.sndBufferCur + s.usSndBufferCount ≤ mbSerPduSizeMax
  memory : ∀ k, mbSerPduSizeMax ≤ k → s.ucRTUBuf k = buffer k

theorem intact_start (banks : Banks) (buffer : Nat → U8) (unassigned : Nat → Option EventType) :
    Intact buffer (start banks buffer unassigned) where
  timer := by simp [start]
  received := by simp [start]
  ports := rfl
  transmitting := by simp [start]
  sending := by simp [start]
  leaving := by simp [start]
  length := by simp [start]
  sent := by simp [start]
  memory := fun _ _ => rfl

variable {buffer : Nat → U8} {s : State}

theorem memory_update {f : Nat → U8} {j : Nat} {v : U8} (h : ∀ k, mbSerPduSizeMax ≤ k → f k = buffer k)
    (hj : j < mbSerPduSizeMax) : ∀ k, mbSerPduSizeMax ≤ k → Function.update f j v k = buffer k := by
  intro k hk
  rw [Function.update_of_ne (by omega), h k hk]

theorem memory_setPdu {frame : Nat → U8} {f : Nat → U8} (h : ∀ k, mbSerPduSizeMax ≤ k → f k = buffer k)
    (hframe : ∀ k, 253 ≤ k → frame k = pduOf f k) : ∀ k, mbSerPduSizeMax ≤ k → setPdu f frame k = buffer k := by
  intro k hk
  rw [mbSerPduSizeMax] at hk
  rw [setPdu, if_neg (by omega), hframe (k - 1) (by omega), pduOf, Nat.sub_add_cancel (by omega)]
  exact h k hk

/-- While the receiver is enabled and the transmit thread has nothing left to do, the transmitter is idle. -/
theorem Intact.transmitter (h : Intact buffer s) (hrx : s.rxEnabled = true) (hstill : s.leaving = false) :
    s.eSndState = .idle := by
  cases hs : s.eSndState with
  | idle => rfl
  | xmit =>
    obtain hl | ht := h.sending hs
    · rw [hstill] at hl
      cases hl
    · rw [h.ports, ht] at hrx
      cases hrx

theorem intact_byte (c : U8) (h : Intact buffer s) (hrx : s.rxEnabled = true) :
    Intact buffer (xMBRTUReceiveFSM c s) := by
  have htx : s.transStart = false := by simpa [h.ports] using hrx
  cases hs : s.eSndState with
  | xmit =>
    have hfail : xMBRTUReceiveFSM c s = { s with fault := some .assertion } := by simp [xMBRTUReceiveFSM, hs]
    rw [hfail]
    exact { h with }
  | idle =>
    have hstill : s.leaving = false := by
      rw [← Bool.not_eq_true]
      exact fun hl => absurd (hs.symm.trans (h.leaving hl).1) (by decide)
    cases hr : s.eRcvState with
    | init =>
      rw [receive_waiting c hs (.inl hr)]
      exact { h with timer := by simp [hr] }
    | error =>
      rw [receive_waiting c hs (.inr hr)]
      exact { h with timer := by simp [hr] }
    | idle =>
      rw [receive_first c hs hr]
      exact { h with
        timer := by simp
        received := (by decide : 1 ≤ mbSerPduSizeMax)
        transmitting := fun hon => absurd (htx.symm.trans hon) (by decide)
        leaving := fun hon => absurd (hstill.symm.trans hon) (by decide)
        memory := memory_update h.memory (by decide) }
    | rcv =>
      by_cases hroom : s.usRcvBufferPos < mbSerPduSizeMax
      · rw [receive_next c hs hr hroom]
        exact { h with timer := by simp [hr], received := hroom, memory := memory_update h.memory hroom }
      · rw [receive_full c hs hr hroom]
        exact { h with
          timer := by simp
          transmitting := fun hon => absurd (htx.symm.trans hon) (by decide)
          leaving := fun hon => absurd (hstill.symm.trans hon) (by decide) }

/-- The pause ends whatever was received; it may post an event. -/
theorem intact_timer (h : Intact buffer s) (ht : s.timer = true) : Intact buffer (xMBRTUTimerT35Expired s) := by
  have hbusy := h.timer.mp ht
  have hended (event : Event 8) : Intact buffer { s with event := event, timer := false, eRcvState := .idle } :=
    { h with
      timer := by simp
      transmitting := fun _ => rfl
      leaving := fun hl => ⟨(h.leaving hl).1, rfl⟩ }
  cases hr : s.eRcvState with
  | init =>
    rw [xMBRTUTimerT35Expired, hr]
    exact hended _
  | rcv =>
    rw [xMBRTUTimerT35Expired, hr]
    exact hended _
  | error =>
    rw [xMBRTUTimerT35Expired, hr]
    exact hended s.event
  | idle => exact absurd hr hbusy

/-- A turn of the transmit thread: the second half of the end of a transmission; the first half; a character; or nothing
to send. -/
theorem transmit_cases (h : Intact buffer s) (hon : (s.transStart || s.leaving) = true) :
    (s.leaving = true ∧ s.eSndState = .xmit ∧
      xMBRTUTransmitFSM s = { s with eSndState := .idle, leaving := false }) ∨
    (s.leaving = false ∧ s.transStart = true ∧ s.eSndState = .xmit ∧ s.usSndBufferCount = 0 ∧
      xMBRTUTransmitFSM s = { s with
        event := send anyEvent EventType.frameSent.mask s.event
        rxEnabled := true
        transStart := false
        leaving := true }) ∨
    (s.leaving = false ∧ s.transStart = true ∧ s.eSndState = .xmit ∧ s.usSndBufferCount ≠ 0 ∧
      xMBRTUTransmitFSM s = { s with
        line := s.line ++ [s.ucRTUBuf s.sndBufferCur]
        sndBufferCur := s.sndBufferCur + 1
        usSndBufferCount := s.usSndBufferCount - 1 }) ∨
    (s.leaving = false ∧ s.transStart = true ∧ s.eSndState = .idle ∧
      xMBRTUTransmitFSM s = { s with rxEnabled := true, transStart := false }) := by
  cases hl : s.leaving with
  | true => exact .inl ⟨rfl, (h.leaving hl).1, by rw [xMBRTUTransmitFSM, if_pos hl]⟩
  | false =>
    have hstart : s.transStart = true := by rwa [hl, Bool.or_false] at hon
    have hr := h.transmitting hstart
    cases hs : s.eSndState with
    | idle =>
      refine .inr (.inr (.inr ⟨rfl, hstart, rfl, ?_⟩))
      simp [xMBRTUTransmitFSM, hl, hr, hs]
    | xmit =>
      by_cases hcount : s.usSndBufferCount = 0
      · refine .inr (.inl ⟨rfl, hstart, rfl, hcount, ?_⟩)
        simp [xMBRTUTransmitFSM, hl, hr, hs, hcount, xMBPortEventPost]
      · refine .inr (.inr (.inl ⟨rfl, hstart, rfl, hcount, ?_⟩))
        simp [xMBRTUTransmitFSM, hl, hr, hs, hcount]

theorem intact_transmit (h : Intact buffer s) (hon : (s.transStart || s.leaving) = true) :
    Intact buffer (xMBRTUTransmitFSM s) := by
  obtain ⟨-, -, hstep⟩ | ⟨-, ht, hs, -, hstep⟩ | ⟨-, -, -, hcount, hstep⟩ | ⟨-, -, hs, hstep⟩ := transmit_cases h hon
  · rw [hstep]
    exact { h with
      sending := fun hx => nomatch hx
      leaving := fun hx => nomatch hx }
  · rw [hstep]
    exact { h with
      ports := rfl
      transmitting := fun hx => nomatch hx
      sending := fun _ => .inl rfl
      leaving := fun _ => ⟨hs, h.transmitting ht⟩ }
  · rw [hstep]
    have hsent := h.sent
    exact { h with
      sent := by
        show s.sndBufferCur + 1 + (s.usSndBufferCount - 1) ≤ mbSerPduSizeMax
        omega }
  · rw [hstep]
    exact { h with
      ports := rfl
      transmitting := fun hx => nomatch hx
      sending := fun hx => absurd (hs.symm.trans hx) (by decide) }

theorem intact_frameReceived (ucMBAddress : U8) (h : Intact buffer s) : Intact buffer (frameReceived ucMBAddress s) := by
  have hpos : ¬ mbSerPduSizeMax < s.usRcvBufferPos := not_lt.mpr h.received
  have hlen : s.usRcvBufferPos - 3 ≤ 253 := by
    have hmost := h.received
    rw [mbSerPduSizeMax] at hmost
    omega
  rw [frameReceived, if_neg hpos]
  split
  · dsimp only
    split
    · exact { h with length := hlen }
    · exact { h with length := hlen }
  · exact h

theorem intact_send (ucMBAddress : U8) (h : Intact buffer s) : Intact buffer (eMBRTUSend ucMBAddress s) := by
  have hlen := h.length
  rw [eMBRTUSend]
  split
  case isTrue hr =>
    exact { h with
      ports := rfl
      transmitting := fun _ => hr
      sending := fun _ => .inr rfl
      leaving := fun _ => ⟨rfl, hr⟩
      sent := by
        show 0 + (1 + s.usLength + 2) ≤ mbSerPduSizeMax
        rw [mbSerPduSizeMax]
        omega
      memory := by
        apply memory_update
        · apply memory_update
          · exact memory_update h.memory (by decide)
          · rw [mbSerPduSizeMax]
            omega
        · rw [mbSerPduSizeMax]
          omega }
  case isFalse => exact h

theorem intact_execute (ucMBAddress : U8) (h : Intact buffer s) : Intact buffer (execute ucMBAddress s) := by
  rw [execute]
  dsimp only
  split
  · exact { h with }
  split
  · apply intact_send
    exact { h with
      length := reply_usLen _ _ _ h.length
      memory := memory_setPdu h.memory fun k hk => reply_above _ _ _ k hk }
  · exact { h with
      length := dispatch_usLen _ _ _ h.length
      memory := memory_setPdu h.memory fun k hk => dispatch_above _ _ _ k hk }

theorem intact_handle (ucMBAddress : U8) (eEvent : Option EventType) (h : Intact buffer s) :
    Intact buffer (handleEvent ucMBAddress eEvent s) := by
  unfold handleEvent
  split
  · exact intact_frameReceived ucMBAddress h
  · exact intact_execute ucMBAddress h
  · exact h

theorem intact_poll (ucMBAddress : U8) (h : Intact buffer s) : Intact buffer (eMBPoll ucMBAddress s) := by
  rw [eMBPoll]
  split
  · exact h
  · exact { h with }
  · dsimp only
    split
    · exact intact_handle ucMBAddress _ { h with }
    · exact intact_handle ucMBAddress _ { h with }

theorem intact_step (ucMBAddress : U8) (s : State) (l : Label) (h : Intact buffer s) :
    Intact buffer (step ucMBAddress s l) := by
  by_cases hstopped : s.stopped = true
  · rw [step_stopped hstopped]
    exact h
  cases l with
  | byte c =>
    rw [step, if_neg hstopped]
    split
    case isTrue hrx => exact intact_byte c h hrx
    case isFalse => exact h
  | timer =>
    rw [step, if_neg hstopped]
    split
    case isTrue ht => exact intact_timer h ht
    case isFalse => exact h
  | transmit =>
    rw [step, if_neg hstopped]
    split
    case isTrue hon => exact intact_transmit h hon
    case isFalse => exact h
  | poll =>
    rw [step, if_neg hstopped]
    exact intact_poll ucMBAddress h
  | app change =>
    rw [step, if_neg hstopped]
    exact { h with }

/-- Whatever comes over the line, in whatever order the threads run, and whatever the poll makes of a variable that
nobody has set: nothing is ever written behind the frame buffer or sent from there, the registers of a reply fit in it,
and nothing is received while a reply is under way. -/
theorem buffer_kept (ucMBAddress : U8) (banks : Banks) (buffer : Nat → U8) (unassigned : Nat → Option EventType)
    (labels : List Label) :
    let s := run (step ucMBAddress) (start banks buffer unassigned) labels
    (∀ k, mbSerPduSizeMax ≤ k → s.ucRTUBuf k = buffer k) ∧ s.usRcvBufferPos ≤ mbSerPduSizeMax ∧
      s.usLength + 3 ≤ mbSerPduSizeMax ∧ s.sndBufferCur + s.usSndBufferCount ≤ mbSerPduSizeMax ∧
      (s.eSndState = .xmit → s.leaving = false → s.rxEnabled = false) := by
  intro s
  have h : Intact buffer s :=
    invariant (intact_step ucMBAddress) (start banks buffer unassigned) labels (intact_start banks buffer unassigned)
  have hlen := h.length
  refine ⟨h.memory, h.received, ?_, h.sent, fun hx hl => ?_⟩
  · rw [mbSerPduSizeMax]
    omega
  · have hstart := (h.sending hx).resolve_left (by rw [hl]; decide)
    rw [h.ports, hstart]
    rfl

end Buffer

section Safety

/-- The event the timer posts. -/
def due : RcvState → Option EventType
  | .init => some .ready
  | .rcv => some .frameReceived
  | _ => none

/-- A good frame for this slave. -/
def handedOn (ucMBAddress : U8) (s : State) : Bool :=
  frameGood s && (decide (s.ucRTUBuf 0 = ucMBAddress) || decide (s.ucRTUBuf 0 = 0#8))

/-- The event a step posts. -/
def posts (ucMBAddress : U8) (s : State) : Label → Option EventType
  | .timer => if s.timer then due s.eRcvState else none
  | .transmit =>
    if s.leaving = false ∧ s.transStart = true ∧ s.eSndState = .xmit ∧ s.usSndBufferCount = 0 then some .frameSent
    else none
  | .poll =>
    if s.event.thread = .resumed EventType.frameReceived.mask ∧ handedOn ucMBAddress s = true then some .execute
    else none
  | _ => none

/-- The poll thread does not wait, and has not yet taken a different event. -/
def Crowded (event : Event 8) (e : EventType) : Prop :=
  event.thread ≠ .suspended ∧ event.set ≠ 0#8 ∧ event.set ≠ e.mask

instance (event : Event 8) (e : EventType) : Decidable (Crowded event e) :=
  inferInstanceAs (Decidable (event.thread ≠ .suspended ∧ event.set ≠ 0#8 ∧ event.set ≠ e.mask))

/-- A character between the two halves of the end of a transmission, or an event on top of a different one. -/
def hazard (ucMBAddress : U8) (s : State) : Label → Prop
  | .byte _ => s.leaving = true ∧ s.rxEnabled = true
  | l => ∃ e ∈ posts ucMBAddress s l, Crowded s.event e

instance (ucMBAddress : U8) (s : State) : ∀ l, Decidable (hazard ucMBAddress s l)
  | .byte _ => inferInstanceAs (Decidable (s.leaving = true ∧ s.rxEnabled = true))
  | .timer => inferInstanceAs (Decidable (∃ e ∈ posts ucMBAddress s .timer, Crowded s.event e))
  | .transmit => inferInstanceAs (Decidable (∃ e ∈ posts ucMBAddress s .transmit, Crowded s.event e))
  | .poll => inferInstanceAs (Decidable (∃ e ∈ posts ucMBAddress s .poll, Crowded s.event e))
  | .app _ => inferInstanceAs (Decidable (∃ e ∈ (none : Option EventType), Crowded s.event e))

/-- The poll knows what it has been handed, and what it will be handed next. -/
structure Known (event : Event 8) : Prop where
  set : event.set = 0#8 ∨ ∃ e : EventType, event.set = e.mask
  thread : ∀ recved, event.thread = .resumed recved → ∃ e : EventType, recved = e.mask

/-- No fault so far, and none on its way to the poll. -/
def Sound (s : State) : Prop := s.fault = none ∧ Known s.event

/-- The request `e` is on its way to the poll. -/
def Coming (event : Event 8) (e : EventType) : Prop := event.set = e.mask ∨ event.thread = .resumed e.mask

structure Inv (buffer : Nat → U8) (s : State) : Prop extends Intact buffer s where
  known : Known s.event
  waits : s.event.thread = .suspended → s.event.set = 0#8
  framed : Coming s.event .execute → s.framed = true
  sound : s.fault = none

variable {ucMBAddress : U8} {buffer : Nat → U8} {s : State} {event : Event 8}

@[simp] theorem anyEvent_and (e : EventType) : anyEvent &&& e.mask = e.mask := by cases e <;> decide

theorem eventOf_mask (e : EventType) : eventOf e.mask = some e := by cases e <;> rfl

theorem mask_ne_zero (e : EventType) : e.mask ≠ 0#8 := by cases e <;> decide

theorem mask_inj {e e' : EventType} (h : e.mask = e'.mask) : e = e' :=
  Option.some.inj ((eventOf_mask e).symm.trans ((congrArg eventOf h).trans (eventOf_mask e')))

/-- Two different events make a set that is neither empty nor one event. -/
theorem or_mask (e e' e'' : EventType) (h : e'.mask ≠ e.mask) : e'.mask ||| e.mask ≠ e''.mask := by
  cases e <;> cases e' <;> first | exact absurd rfl h | (cases e'' <;> decide)

theorem or_mask_ne_zero (e e' : EventType) : e'.mask ||| e.mask ≠ 0#8 := by
  cases e <;> cases e' <;> decide

theorem inv_start (banks : Banks) (buffer : Nat → U8) (unassigned : Nat → Option EventType) :
    Inv buffer (start banks buffer unassigned) where
  toIntact := intact_start banks buffer unassigned
  known := ⟨.inl rfl, nofun⟩
  waits := nofun
  framed := by
    rintro (h | h)
    · exact absurd h.symm (mask_ne_zero _)
    · cases h
  sound := rfl

/-- What is posted to a thread that waits is handed to it; otherwise it is added to the set. -/
theorem post_cases (h : event.thread = .suspended → event.set = 0#8) (e : EventType) :
    (event.thread = .suspended ∧ send anyEvent e.mask event = ⟨0#8, .resumed e.mask⟩) ∨
      (event.thread ≠ .suspended ∧ send anyEvent e.mask event = ⟨event.set ||| e.mask, event.thread⟩) := by
  by_cases hs : event.thread = .suspended
  · exact .inl ⟨hs, send_suspended hs (h hs) (anyEvent_and e) (mask_ne_zero e)⟩
  · exact .inr ⟨hs, send_running hs⟩

/-- An event on its own leaves the poll in the know. -/
theorem known_post (e : EventType) (hknown : Known event) (hwaits : event.thread = .suspended → event.set = 0#8)
    (hok : ¬ Crowded event e) : Known (send anyEvent e.mask event) := by
  obtain ⟨-, hsend⟩ | ⟨hs, hsend⟩ := post_cases hwaits e
  · rw [hsend]
    exact ⟨.inl rfl, fun recved h => ⟨e, (Thread.resumed.inj h).symm⟩⟩
  · rw [hsend]
    refine ⟨.inr ⟨e, ?_⟩, hknown.thread⟩
    by_cases hzero : event.set = 0#8
    · exact hzero ▸ BitVec.zero_or
    · have hsame : event.set = e.mask := by_contra fun hne => hok ⟨hs, hzero, hne⟩
      exact hsame ▸ BitVec.or_self

/-- An event on top of a different one does not. -/
theorem not_known_post (e : EventType) (hknown : Known event) (h : Crowded event e) :
    ¬ Known (send anyEvent e.mask event) := by
  obtain ⟨hs, hzero, hne⟩ := h
  obtain ⟨e', he'⟩ := hknown.set.resolve_left hzero
  rw [send_running hs, he']
  rintro ⟨hset | ⟨e'', hset⟩, -⟩
  · exact or_mask_ne_zero e e' hset
  · exact or_mask e e' e'' (he' ▸ hne) hset

theorem waits_post (e : EventType) (hwaits : event.thread = .suspended → event.set = 0#8) :
    (send anyEvent e.mask event).thread = .suspended → (send anyEvent e.mask event).set = 0#8 := by
  obtain ⟨-, hsend⟩ | ⟨hs, hsend⟩ := post_cases hwaits e
  · rw [hsend]
    exact nofun
  · rw [hsend]
    exact fun h => absurd h hs

/-- What comes after a post came before it, or has been posted. -/
theorem coming_post (e e' : EventType) (hwaits : event.thread = .suspended → event.set = 0#8)
    (hok : ¬ Crowded event e) (h : Coming (send anyEvent e.mask event) e') : e' = e ∨ Coming event e' := by
  obtain ⟨-, hsend⟩ | ⟨hs, hsend⟩ := post_cases hwaits e
  · rw [hsend] at h
    obtain hset | hthread := h
    · exact absurd hset.symm (mask_ne_zero e')
    · exact .inl (mask_inj (Thread.resumed.inj hthread)).symm
  · rw [hsend] at h
    obtain hset | hthread := h
    · by_cases hzero : event.set = 0#8
      · rw [hzero, BitVec.zero_or] at hset
        exact .inl (mask_inj hset).symm
      · have hsame : event.set = e.mask := by_contra fun hne => hok ⟨hs, hzero, hne⟩
        rw [hsame, BitVec.or_self] at hset
        exact .inl (mask_inj hset).symm
    · exact .inr (.inr hthread)

/-- A turn of the poll thread: it waits on, finds nothing, takes an event or works on one. -/
theorem poll_cases (ucMBAddress : U8) (h : Inv buffer s) :
    (s.event.thread = .suspended ∧ eMBPoll ucMBAddress s = s) ∨
    (s.event = ⟨0#8, .running⟩ ∧ eMBPoll ucMBAddress s = { s with event := ⟨0#8, .suspended⟩ }) ∨
    (∃ e : EventType, s.event = ⟨e.mask, .running⟩ ∧
      eMBPoll ucMBAddress s = { s with event := ⟨0#8, .resumed e.mask⟩ }) ∨
    (∃ e : EventType, s.event.thread = .resumed e.mask ∧
      eMBPoll ucMBAddress s = handleEvent ucMBAddress (some e) { s with event := ⟨s.event.set, .running⟩ }) := by
  have hevent : s.event = ⟨s.event.set, s.event.thread⟩ := rfl
  cases ht : s.event.thread with
  | suspended => exact .inl ⟨rfl, by rw [eMBPoll, ht]⟩
  | running =>
    have hpoll : eMBPoll ucMBAddress s = { s with event := recv anyEvent s.event } := by rw [eMBPoll, ht]
    obtain hset | ⟨e, hset⟩ := h.known.set
    · refine .inr (.inl ⟨by rw [hevent, hset, ht], ?_⟩)
      rw [hpoll, recv_zero hset]
    · refine .inr (.inr (.inl ⟨e, by rw [hevent, hset, ht], ?_⟩))
      rw [hpoll, recv_flags hset (anyEvent_and e) (mask_ne_zero e)]
  | resumed recved =>
    obtain ⟨e, rfl⟩ := h.known.thread recved ht
    refine .inr (.inr (.inr ⟨e, rfl, ?_⟩))
    rw [eMBPoll, ht]
    simp only [eventOf_mask]
    rfl

/-- Whether the poll hands a frame on. -/
theorem frameReceived_cases (ucMBAddress : U8) (h : Intact buffer s) :
    (handedOn ucMBAddress s = true ∧ frameReceived ucMBAddress s = { s with
      ucRcvAddress := s.ucRTUBuf 0
      usLength := s.usRcvBufferPos - 3
      framed := true
      event := send anyEvent EventType.execute.mask s.event }) ∨
    (handedOn ucMBAddress s = false ∧ ∃ address length framed, frameReceived ucMBAddress s =
      { s with ucRcvAddress := address, usLength := length, framed := framed } ∧ (s.framed = true → framed = true)) := by
  rw [frameReceived, if_neg (not_lt.mpr h.received), handedOn]
  cases hgood : frameGood s with
  | false => exact .inr ⟨rfl, s.ucRcvAddress, s.usLength, s.framed, rfl, id⟩
  | true =>
    rw [if_pos rfl]
    by_cases hmine : s.ucRTUBuf 0 = ucMBAddress ∨ s.ucRTUBuf 0 = 0#8
    · rw [if_pos hmine]
      exact .inl ⟨by simpa using hmine, rfl⟩
    · rw [if_neg hmine]
      exact .inr ⟨by simpa using hmine, _, _, true, rfl, fun _ => rfl⟩

/-- The request is answered, or not: the event stays as it is. -/
theorem execute_event (ucMBAddress : U8) (h : s.framed = true) :
    (execute ucMBAddress s).event = s.event ∧ (execute ucMBAddress s).framed = s.framed ∧
      (execute ucMBAddress s).fault = s.fault ∧ (execute ucMBAddress s).eRcvState = s.eRcvState := by
  simp only [execute, eMBRTUSend]
  rw [if_neg (by rw [h]; decide)]
  split_ifs <;> exact ⟨rfl, rfl, rfl, rfl⟩

/-- The event after a step of the receiver, the timer or the transmit thread. -/
theorem inv_posted (h : Inv buffer s) (e : EventType) (hok : ¬ Crowded s.event e) (s' : State)
    (hintact : Intact buffer s') (hevent : s'.event = send anyEvent e.mask s.event)
    (hframed : s.framed = true → s'.framed = true) (hexecute : e = .execute → s'.framed = true)
    (hfault : s'.fault = s.fault) : Inv buffer s' where
  toIntact := hintact
  known := by
    rw [hevent]
    exact known_post e h.known h.waits hok
  waits := by
    rw [hevent]
    exact waits_post e h.waits
  framed := by
    intro hcoming
    rw [hevent] at hcoming
    obtain he | hcoming := coming_post e .execute h.waits hok hcoming
    · exact hexecute he.symm
    · exact hframed (h.framed hcoming)
  sound := hfault.trans h.sound

theorem inv_same (h : Inv buffer s) (s' : State) (hintact : Intact buffer s') (hevent : s'.event = s.event)
    (hframed : s'.framed = s.framed) (hfault : s'.fault = s.fault) : Inv buffer s' where
  toIntact := hintact
  known := hevent ▸ h.known
  waits := hevent ▸ h.waits
  framed := fun hcoming => hframed.trans (h.framed (hevent ▸ hcoming))
  sound := hfault.trans h.sound

theorem inv_byte (c : U8) (h : Inv buffer s) (hok : ¬ hazard ucMBAddress s (.byte c)) (hrx : s.rxEnabled = true) :
    Inv buffer (xMBRTUReceiveFSM c s) := by
  have hstill : s.leaving = false := by simpa [hazard, hrx] using hok
  have hidle := h.transmitter hrx hstill
  refine inv_same h _ (intact_byte c h.toIntact hrx) ?_ ?_ ?_ <;> simp only [xMBRTUReceiveFSM, hidle, ne_eq,
    not_true_eq_false, if_false] <;> split <;> first | rfl | (split <;> rfl)

theorem inv_timer (h : Inv buffer s) (hok : ¬ hazard ucMBAddress s .timer) (ht : s.timer = true) :
    Inv buffer (xMBRTUTimerT35Expired s) := by
  have hintact := intact_timer h.toIntact ht
  have hposts : ∀ e, due s.eRcvState = some e → ¬ Crowded s.event e :=
    fun e he hcrowded => hok ⟨e, by rw [posts, if_pos ht]; exact he, hcrowded⟩
  cases hr : s.eRcvState with
  | init =>
    have hstep : xMBRTUTimerT35Expired s =
        { xMBPortEventPost .ready s with timer := false, eRcvState := .idle } := by rw [xMBRTUTimerT35Expired, hr]
    rw [hstep] at hintact ⊢
    exact inv_posted h .ready (hposts _ (by rw [hr]; rfl)) _ hintact rfl id nofun rfl
  | rcv =>
    have hstep : xMBRTUTimerT35Expired s =
        { xMBPortEventPost .frameReceived s with timer := false, eRcvState := .idle } := by
      rw [xMBRTUTimerT35Expired, hr]
    rw [hstep] at hintact ⊢
    exact inv_posted h .frameReceived (hposts _ (by rw [hr]; rfl)) _ hintact rfl id nofun rfl
  | error =>
    have hstep : xMBRTUTimerT35Expired s = { s with timer := false, eRcvState := .idle } := by
      rw [xMBRTUTimerT35Expired, hr]
    rw [hstep] at hintact ⊢
    exact inv_same h _ hintact rfl rfl rfl
  | idle => exact absurd hr (h.timer.mp ht)

theorem inv_transmit (h : Inv buffer s) (hok : ¬ hazard ucMBAddress s .transmit)
    (hon : (s.transStart || s.leaving) = true) : Inv buffer (xMBRTUTransmitFSM s) := by
  have hintact := intact_transmit h.toIntact hon
  obtain ⟨-, -, hstep⟩ | ⟨hl, ht, hs, hcount, hstep⟩ | ⟨-, -, -, -, hstep⟩ | ⟨-, -, -, hstep⟩ :=
    transmit_cases h.toIntact hon
  · rw [hstep] at hintact ⊢
    exact inv_same h _ hintact rfl rfl rfl
  · have hfree : ¬ Crowded s.event .frameSent :=
      fun hcrowded => hok ⟨.frameSent, if_pos ⟨hl, ht, hs, hcount⟩, hcrowded⟩
    rw [hstep] at hintact ⊢
    exact inv_posted h .frameSent hfree _ hintact rfl id nofun rfl
  · rw [hstep] at hintact ⊢
    exact inv_same h _ hintact rfl rfl rfl
  · rw [hstep] at hintact ⊢
    exact inv_same h _ hintact rfl rfl rfl

/-- The poll thread goes on with the event in hand. -/
theorem inv_resumed (h : Inv buffer s) : Inv buffer { s with event := ⟨s.event.set, .running⟩ } where
  toIntact := { h.toIntact with }
  known := ⟨h.known.set, nofun⟩
  waits := nofun
  framed := by
    rintro (hset | hthread)
    · exact h.framed (.inl hset)
    · cases hthread
  sound := h.sound

theorem inv_poll (h : Inv buffer s) (hok : ¬ hazard ucMBAddress s .poll) : Inv buffer (eMBPoll ucMBAddress s) := by
  obtain ⟨-, hpoll⟩ | ⟨-, hpoll⟩ | ⟨e, hevent, hpoll⟩ | ⟨e, hthread, hpoll⟩ := poll_cases ucMBAddress h
  · rw [hpoll]
    exact h
  · rw [hpoll]
    refine { h with toIntact := { h.toIntact with }, known := ⟨.inl rfl, nofun⟩, waits := fun _ => rfl, framed := ?_ }
    rintro (hset | hthread)
    · exact absurd hset.symm (mask_ne_zero _)
    · cases hthread
  · rw [hpoll]
    refine { h with
      toIntact := { h.toIntact with }
      known := ⟨.inl rfl, fun recved hrecved => ⟨e, (Thread.resumed.inj hrecved).symm⟩⟩
      waits := nofun
      framed := ?_ }
    rintro (hset | hthread)
    · exact absurd hset.symm (mask_ne_zero _)
    · exact h.framed (.inl (by rw [hevent]; exact Thread.resumed.inj hthread))
  · have hresumed := inv_resumed h
    have hintact := intact_handle ucMBAddress (some e) hresumed.toIntact
    rw [hpoll]
    cases e with
    | ready => exact hresumed
    | frameSent => exact hresumed
    | frameReceived =>
      obtain ⟨hhanded, hstep⟩ | ⟨-, address, length, framed, hstep, hframed⟩ :=
        frameReceived_cases ucMBAddress hresumed.toIntact
      · have hfree : ¬ Crowded s.event .execute :=
          fun hcrowded => hok ⟨.execute, if_pos ⟨hthread, hhanded⟩, hcrowded⟩
        rw [handleEvent, hstep] at hintact ⊢
        refine inv_posted hresumed .execute ?_ _ hintact rfl (fun _ => rfl) (fun _ => rfl) rfl
        rintro ⟨-, hset⟩
        exact hfree ⟨by rw [hthread]; exact nofun, hset⟩
      · rw [handleEvent, hstep] at hintact ⊢
        exact { hresumed with toIntact := hintact, framed := fun hcoming => hframed (hresumed.framed hcoming) }
    | execute =>
      obtain ⟨hevent, hframed, hfault, -⟩ :=
        execute_event ucMBAddress (s := { s with event := ⟨s.event.set, .running⟩ })
          (h.framed (.inr hthread))
      exact inv_same hresumed _ hintact hevent hframed hfault

theorem Inv.running (h : Inv buffer s) : ¬ s.stopped = true := by
  rw [State.stopped, h.sound]
  decide

theorem inv_step (ucMBAddress : U8) (s : State) (l : Label) (h : Inv buffer s) (hok : ¬ hazard ucMBAddress s l) :
    Inv buffer (step ucMBAddress s l) := by
  cases l with
  | byte c =>
    rw [step, if_neg h.running]
    split
    case isTrue hrx => exact inv_byte c h hok hrx
    case isFalse => exact h
  | timer =>
    rw [step, if_neg h.running]
    split
    case isTrue ht => exact inv_timer h hok ht
    case isFalse => exact h
  | transmit =>
    rw [step, if_neg h.running]
    split
    case isTrue hon => exact inv_transmit h hok hon
    case isFalse => exact h
  | poll =>
    rw [step, if_neg h.running]
    exact inv_poll h hok
  | app change =>
    rw [step, if_neg h.running]
    exact inv_same h _ { h.toIntact with } rfl rfl rfl

/-- The event behind a step that posts one. -/
theorem event_of_posts (h : Inv buffer s) (l : Label) (e : EventType) (he : posts ucMBAddress s l = some e) :
    ∃ event : Event 8, event.set = s.event.set ∧ (event.thread = .suspended ↔ s.event.thread = .suspended) ∧
      Known event ∧ (step ucMBAddress s l).event = send anyEvent e.mask event := by
  cases l with
  | byte c => cases he
  | timer =>
    rw [posts] at he
    split at he
    case isTrue ht =>
      refine ⟨s.event, rfl, Iff.rfl, h.known, ?_⟩
      rw [step, if_neg h.running, if_pos ht]
      cases hr : s.eRcvState <;> rw [hr] at he <;> cases he <;> simp only [xMBRTUTimerT35Expired, hr, xMBPortEventPost]
    case isFalse => cases he
  | transmit =>
    rw [posts] at he
    split at he
    case isTrue hall =>
      obtain ⟨hl, ht, hs, hcount⟩ := hall
      cases he
      refine ⟨s.event, rfl, Iff.rfl, h.known, ?_⟩
      rw [step, if_neg h.running, if_pos (by rw [ht]; rfl)]
      simp [xMBRTUTransmitFSM, hl, h.transmitting ht, hs, hcount, xMBPortEventPost]
    case isFalse => cases he
  | poll =>
    rw [posts] at he
    split at he
    case isTrue hall =>
      obtain ⟨hthread, hhanded⟩ := hall
      cases he
      refine ⟨⟨s.event.set, .running⟩, rfl, by simp [hthread], (inv_resumed h).known, ?_⟩
      have hpoll : eMBPoll ucMBAddress s =
          frameReceived ucMBAddress { s with event := ⟨s.event.set, .running⟩ } := by
        rw [eMBPoll, hthread]
        simp only [eventOf_mask]
        rfl
      rw [step, if_neg h.running, hpoll]
      obtain ⟨-, hstep⟩ | ⟨hno, -⟩ := frameReceived_cases ucMBAddress (inv_resumed h).toIntact
      · rw [hstep]
      · exact absurd (hno.symm.trans hhanded) (by decide)
    case isFalse => cases he
  | app change => cases he

/-- A step from a sound state that is a hazard leads to a fault, at once or when the poll asks for its next event. -/
theorem not_hazard_of_sound (ucMBAddress : U8) (s : State) (l : Label) (h : Inv buffer s)
    (hsound : Sound (step ucMBAddress s l)) : ¬ hazard ucMBAddress s l := by
  have hpost : ¬ ∃ e ∈ posts ucMBAddress s l, Crowded s.event e := by
    rintro ⟨e, he, hs, hset⟩
    obtain ⟨event, hsame, hthread, hknown, hstep⟩ := event_of_posts h l e he
    refine not_known_post e hknown ⟨fun h => hs (hthread.mp h), hsame ▸ hset⟩ ?_
    rw [← hstep]
    exact hsound.2
  cases l with
  | byte c =>
    rintro ⟨hl, hrx⟩
    have hfault : (step ucMBAddress s (.byte c)).fault = some .assertion := by
      rw [step, if_neg h.running, if_pos hrx, xMBRTUReceiveFSM, (h.leaving hl).1, if_pos (by decide)]
    rw [Sound, hfault] at hsound
    exact absurd hsound.1 (by decide)
  | timer => exact hpost
  | transmit => exact hpost
  | poll => exact hpost
  | app change => exact hpost

theorem sound_of_inv (s : State) (h : Inv buffer s) : Sound s := ⟨h.sound, h.known⟩

/-- The link runs without a fault, and none on its way to the poll, exactly if no character comes between the two halves
of the end of a transmission and no event is posted on top of a different one that the poll has not yet taken. -/
theorem sound_iff_no_hazard (ucMBAddress : U8) (banks : Banks) (buffer : Nat → U8)
    (unassigned : Nat → Option EventType) (labels : List Label) :
    (∀ reached, reached <+: labels → Sound (run (step ucMBAddress) (start banks buffer unassigned) reached)) ↔
      Allowed (step ucMBAddress) (fun s l => ¬ hazard ucMBAddress s l) (start banks buffer unassigned) labels :=
  prefixes_iff_allowed (inv_step ucMBAddress) sound_of_inv (not_hazard_of_sound ucMBAddress)
    (start banks buffer unassigned) labels (inv_start banks buffer unassigned)

end Safety

section Tables

theorem kept_handle (ucMBAddress : U8) (eEvent : Option EventType) (s : State) :
    Kept s.banks (handleEvent ucMBAddress eEvent s).banks := by
  unfold handleEvent
  split
  · have hbanks : (frameReceived ucMBAddress s).banks = s.banks := by
      rw [frameReceived]
      dsimp only
      split_ifs <;> rfl
    rw [hbanks]
    exact Kept.refl _
  · simp only [execute, eMBRTUSend, reply]
    split_ifs <;> first | exact Kept.refl _ | exact dispatch_kept _ _ _
  · exact Kept.refl _

theorem kept_poll (ucMBAddress : U8) (s : State) : Kept s.banks (eMBPoll ucMBAddress s).banks := by
  rw [eMBPoll]
  split
  · exact Kept.refl _
  · exact Kept.refl _
  · dsimp only
    split
    · exact kept_handle ucMBAddress _ { s with event := s.event.resume }
    · exact kept_handle ucMBAddress _ { s with
        event := s.event.resume
        unassigned := fun n => s.unassigned (n + 1)
        fault := some .uninitialised }

theorem kept_step (ucMBAddress : U8) (s : State) (l : Label) (hl : ∀ change, l ≠ .app change) :
    Kept s.banks (step ucMBAddress s l).banks := by
  by_cases hstopped : s.stopped = true
  · rw [step_stopped hstopped]
    exact Kept.refl _
  cases l with
  | byte c =>
    simp only [step, hstopped, xMBRTUReceiveFSM]
    split_ifs <;> first | exact Kept.refl _ | (split <;> exact Kept.refl _)
  | timer =>
    simp only [step, hstopped, xMBRTUTimerT35Expired]
    split_ifs <;> first | exact Kept.refl _ | (split <;> exact Kept.refl _)
  | transmit =>
    simp only [step, hstopped, xMBRTUTransmitFSM]
    split_ifs <;> first | exact Kept.refl _ | (split <;> exact Kept.refl _)
  | poll =>
    rw [step, if_neg hstopped]
    exact kept_poll ucMBAddress s
  | app change => exact absurd rfl (hl change)

/-- Whatever comes over the line, in whatever order the threads run, and whatever the poll makes of a variable that
nobody has set: the host changes neither the inputs nor the slave ID, and no memory behind the registers or more than a
byte behind the coils. -/
theorem tables_kept (ucMBAddress : U8) (banks : Banks) (buffer : Nat → U8) (unassigned : Nat → Option EventType)
    (labels : List Label) (hl : ∀ change, .app change ∉ labels) :
    Kept banks (run (step ucMBAddress) (start banks buffer unassigned) labels).banks := by
  have hallowed : Allowed (step ucMBAddress) (fun _ l => ∀ change, l ≠ .app change) (start banks buffer unassigned)
      labels := allowed_of_forall _ labels fun l hm _ change he => hl change (he ▸ hm)
  have hstep : ∀ s l, Kept banks s.banks → (∀ change, l ≠ .app change) → Kept banks (step ucMBAddress s l).banks :=
    fun s l hs hc => hs.trans (kept_step ucMBAddress s l hc)
  exact @invariant_of_allowed _ _ _ _ (fun s => Kept banks s.banks) hstep _ labels (Kept.refl banks) hallowed

/-- A host writes a register, and the slave answers. -/
def exchange : List Label :=
  [.timer, .poll, .poll] ++ [1#8, 6#8, 0#8, 2#8, 0#8, 5#8, 232#8, 9#8].map .byte ++
    .timer :: (List.replicate 4 .poll ++ List.replicate 10 .transmit ++ [.poll, .poll])

theorem tables_kept_exchange :
    let s := run (step 1#8) (start blankBanks (fun _ => 0#8) fun _ => none) exchange
    s.line = [1#8, 6#8, 0#8, 2#8, 0#8, 5#8, 232#8, 9#8] ∧ Kept blankBanks s.banks :=
  ⟨by decide +kernel, tables_kept 1#8 blankBanks (fun _ => 0#8) (fun _ => none) exchange fun change => by simp [exchange]⟩

end Tables

end DataReceiveRelay.ModbusRtu
