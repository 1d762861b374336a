import DataReceiveRelay.IdSave
import DataReceiveRelay.Iteration

/-!
# Requests against the reset

The save thread sleeps inside `SaveDeviceIdFile`, inside `Create_JsonFile` and
in the delay at the end of its loop; there, and only there, Modbus requests are
served. A request finds the thread at one of these points, and the tests of the
turn that lie behind it are not made again before the reset bit is looked at.
`asked` notes what the host last asked for, until it takes the request back.
-/

namespace DataReceiveRelay.ResetRequest

open Words Runs Registers Config DeviceIdFile SaveConfig Iteration
open IdSave (Stores stores_lines)

/-- The points at which the thread sleeps; in `resetting` it has called `SystemReset`. -/
inductive Pc where
  | delay
  | saving (i : Nat)
  | creating
  | resetting
  deriving DecidableEq, Repr

/-- The requests of the host since the last boot: registers 0 and 1 and the ID table as of its last write with
the bit set. -/
structure Asked where
  modbus : Option U16
  overtime : Option U16
  ids : Option Table

structure State where
  device : Device
  str : Bytes
  pc : Pc
  isConfigUpdata : Bool
  asked : Asked

/-- A Modbus request: any values for registers 0, 1, 7 and the device IDs. -/
structure HostWrite where
  writes : List (Nat × U16)
  inside : ∀ w ∈ writes, w.1 = 0 ∨ w.1 = 1 ∨ w.1 = configFlagAddress ∨ 0x708 ≤ w.1 ∧ w.1 ≤ 0x907

def HostWrite.apply (w : HostWrite) (regs : Table) : Table := assign regs w.writes

/-- A write with the bit set asks; one that takes the bit away withdraws. -/
def note {α : Type} (before after : Bool) (value : α) (old : Option α) : Option α :=
  if after then some value else if before then none else old

def Asked.next (asked : Asked) (regs regs' : Table) : Asked where
  modbus := note (flag regs 0) (flag regs' 0) (regs' 0) asked.modbus
  overtime := note (flag regs 1) (flag regs' 1) (regs' 1) asked.overtime
  ids := note (flag regs 3) (flag regs' 3) regs' asked.ids

inductive Label where
  | host (w : HostWrite)
  | thread
  /-- The board comes up again after `SystemReset`. -/
  | boot (nullInt : U32) (tail : Bytes)

/-- The tests of bits 0 and 1. -/
def afterBlocks (s : State) : State :=
  { s with device := overtimeBlock (modbusBlock s.device)
           isConfigUpdata := s.isConfigUpdata || SaveConfig.isConfigUpdata s.device }

/-- The test of bit 15. -/
def testReset (s : State) : State :=
  if flag s.device.regs 15 then
    { s with device := { s.device with regs := clearFlag s.device.regs 15 }, pc := .resetting }
  else { s with pc := .delay }

/-- From the end of the ID block to the next point where the thread sleeps. -/
def afterIds (s : State) : State := if s.isConfigUpdata then { s with pc := .creating } else testReset s

/-- What the thread does from one sleep to the next. -/
def threadStep (nullString : NullString) (s : State) : State :=
  match s.pc with
  | .delay =>
    let s := afterBlocks s
    if flag s.device.regs 3 then
      { s with device := { s.device with csv := some [] }, str := printBuffer, pc := .saving 0 }
    else afterIds s
  | .saving i =>
    if i ≤ 255 then
      let (str, row) := saveDeviceIdRow s.str s.device.regs i
      { s with device := { s.device with csv := s.device.csv.map (· ++ row) }, str := str, pc := .saving (i + 1) }
    else afterIds { s with device := { s.device with regs := clearFlag s.device.regs 3 } }
  | .creating =>
    match createJsonFile nullString s.device.config with
    | none => s
    | some file => testReset { s with device := { s.device with json := some file }, isConfigUpdata := false }
  | .resetting => s

def step (nullString : NullString) (s : State) : Label → State
  | .host w =>
    if s.pc = .resetting then s
    else
      { s with device := { s.device with regs := w.apply s.device.regs },
               asked := s.asked.next s.device.regs (w.apply s.device.regs) }
  | .thread => threadStep nullString s
  | .boot nullInt tail =>
    if s.pc = .resetting then
      ⟨startUp nullInt tail s.device.json s.device.csv, printBuffer, .delay, false, ⟨none, none, none⟩⟩
    else s

/-- Any memory and any files, with the thread about to make its tests. -/
def start (device : Device) : State := ⟨device, printBuffer, .delay, false, ⟨none, none, none⟩⟩

@[simp] theorem step_thread (nullString : NullString) (s : State) :
    step nullString s .thread = threadStep nullString s := rfl

theorem step_host (nullString : NullString) (s : State) (w : HostWrite) (h : s.pc ≠ .resetting) :
    (step nullString s (.host w)).pc = s.pc ∧ (step nullString s (.host w)).device.config = s.device.config ∧
      (step nullString s (.host w)).device.regs = w.apply s.device.regs := by
  simp only [step, if_neg h, and_self]

section Turn

/-- Left alone, the thread writes the remaining rows and comes to the end of the ID block. -/
theorem run_rows (nullString : NullString) (s : State) (i : Nat) (hpc : s.pc = .saving i) (hi : i ≤ nodeCount)
    (hstr : s.str = printBuffer) (hcsv : s.device.csv = some (linesText (idAt s.device.regs) (List.range i))) :
    run (step nullString) s (List.replicate (nodeCount - i + 1) .thread) =
      afterIds { s with
        device := { s.device with regs := clearFlag s.device.regs 3, csv := some (saveDeviceIdFile s.device.regs) }
        pc := .saving nodeCount } := by
  induction hk : nodeCount - i generalizing s i with
  | zero =>
    obtain rfl : i = nodeCount := by omega
    have hallowed : ¬nodeCount ≤ 255 := by decide
    simp only [Nat.zero_add, List.replicate_one, run_cons, run_nil, step_thread, threadStep, hpc, if_neg hallowed, hcsv,
      saveDeviceIdFile_eq]
  | succ k ih =>
    have hrow : i ≤ 255 := by simp only [nodeCount] at hk; omega
    have hone : threadStep nullString s =
        { s with device := { s.device with csv := some (linesText (idAt s.device.regs) (List.range (i + 1))) }
                 pc := .saving (i + 1) } := by
      simp only [threadStep, hpc, if_pos hrow, hstr, saveDeviceIdRow_eq s.device.regs i (by omega), hcsv,
        Option.map_some, linesText_succ]
    rw [List.replicate_succ, run_cons, step_thread, hone]
    exact ih _ (i + 1) rfl (by omega) hstr rfl (by omega)

/-- The first three blocks of a turn, from the delay to the end of the ID block. -/
theorem run_to_save (nullString : NullString) (s : State) (hpc : s.pc = .delay) (hupdated : s.isConfigUpdata = false) :
    ∃ k t, run (step nullString) s (List.replicate k .thread) = afterIds t ∧ t.device = beforeSave s.device ∧
      t.isConfigUpdata = SaveConfig.isConfigUpdata s.device := by
  have hmark : (afterBlocks s).isConfigUpdata = SaveConfig.isConfigUpdata s.device := by
    rw [afterBlocks, hupdated, Bool.false_or]
  have hfirst := step_thread nullString s
  simp only [threadStep, hpc] at hfirst
  cases h₃ : flag (afterBlocks s).device.regs 3 with
  | false =>
    rw [h₃, if_neg Bool.false_ne_true] at hfirst
    refine ⟨1, afterBlocks s, hfirst, ?_, hmark⟩
    change (afterBlocks s).device = deviceIdBlock (afterBlocks s).device
    rw [deviceIdBlock, h₃, if_neg Bool.false_ne_true]
  | true =>
    rw [h₃, if_pos rfl] at hfirst
    have hrows := run_rows nullString (step nullString s .thread) 0 (by rw [hfirst]) (by decide) (by rw [hfirst])
      (by rw [hfirst]; rfl)
    rw [← run_cons, ← List.replicate_succ, hfirst] at hrows
    refine ⟨_, _, hrows, ?_, ?_⟩
    · change _ = deviceIdBlock (afterBlocks s).device
      rw [deviceIdBlock, h₃, if_pos rfl]
    · exact hmark

theorem testReset_turn (s : State) :
    (testReset s).device = { s.device with regs := clearFlag s.device.regs 15 } ∧
      (testReset s).pc = (if flag s.device.regs 15 then .resetting else .delay) ∧
      (testReset s).isConfigUpdata = s.isConfigUpdata := by
  unfold testReset
  cases h : flag s.device.regs 15 with
  | true => exact ⟨rfl, rfl, rfl⟩
  | false =>
    rw [clearFlag_of_not _ _ h]
    exact ⟨rfl, rfl, rfl⟩

/-- Without a request in between, the steps of a turn are the five blocks of the loop. -/
theorem run_turn (nullString : NullString) (s : State) (hpc : s.pc = .delay) (hupdated : s.isConfigUpdata = false)
    (t : Device) (reset : Bool) (h : iteration nullString s.device = some (t, reset)) :
    ∃ k, (run (step nullString) s (List.replicate k .thread)).device = t ∧
      (run (step nullString) s (List.replicate k .thread)).pc = (if reset then .resetting else .delay) ∧
      (run (step nullString) s (List.replicate k .thread)).isConfigUpdata = false := by
  obtain ⟨k, u, hrun, hdevice, hmark⟩ := run_to_save nullString s hpc hupdated
  rw [iteration_eq, ← isConfigUpdata_eq, ← hdevice, ← hmark] at h
  obtain ⟨d, hsave, hend⟩ := Option.map_eq_some_iff.mp h
  obtain ⟨rfl, rfl⟩ := Prod.mk.inj hend
  cases hu : u.isConfigUpdata with
  | false =>
    rw [hu] at hsave
    obtain rfl : u.device = d := by simpa [saveBlock] using hsave
    refine ⟨k, ?_⟩
    rw [hrun, afterIds, hu, if_neg Bool.false_ne_true, ← hu]
    exact testReset_turn u
  | true =>
    rw [hu, saveBlock, if_pos rfl] at hsave
    obtain ⟨file, hfile, rfl⟩ := Option.map_eq_some_iff.mp hsave
    refine ⟨k + 1, ?_⟩
    rw [List.replicate_succ', run_append, hrun, run_cons, run_nil, step_thread, afterIds, hu, if_pos rfl]
    simp only [threadStep, hfile]
    exact testReset_turn _

end Turn

section Bits

/-- Nothing is asked for any more. -/
def NothingPending (regs : Table) : Prop := flag regs 0 = false ∧ flag regs 1 = false ∧ flag regs 3 = false

/-- A request that comes while the thread is saving does not ask for the reset together with something this turn
has already looked at. -/
def notLate (s : State) : Label → Prop
  | .host w =>
    match s.pc with
    | .saving _ => flag (w.apply s.device.regs) 15 = true →
        flag (w.apply s.device.regs) 0 = false ∧ flag (w.apply s.device.regs) 1 = false
    | .creating => flag (w.apply s.device.regs) 15 = true → NothingPending (w.apply s.device.regs)
    | _ => True
  | _ => True

/-- What is known of the flags at each point of the turn. -/
def FlagsInv (s : State) : Prop :=
  match s.pc with
  | .delay => True
  | .saving _ => flag s.device.regs 15 = true → flag s.device.regs 0 = false ∧ flag s.device.regs 1 = false
  | .creating => flag s.device.regs 15 = true → NothingPending s.device.regs
  | .resetting => NothingPending s.device.regs

theorem flag_clearFlag_self (regs : Table) (k : Nat) : flag (clearFlag regs k) k = false := by
  rw [flag, clearFlag, Function.update_self, hasBit_clearBit]

theorem nothingPending_clearFlag (regs : Table) (k : Nat) (hk : k ≠ 0 ∧ k ≠ 1 ∧ k ≠ 3) (h : NothingPending regs) :
    NothingPending (clearFlag regs k) := by
  obtain ⟨h₀, h₁, h₃⟩ := h
  refine ⟨?_, ?_, ?_⟩
  · rw [flag_clearFlag _ 0 k hk.1.symm, h₀]
  · rw [flag_clearFlag _ 1 k hk.2.1.symm, h₁]
  · rw [flag_clearFlag _ 3 k hk.2.2.symm, h₃]

theorem flagsInv_testReset (s : State) (h : flag s.device.regs 15 = true → NothingPending s.device.regs) :
    FlagsInv (testReset s) := by
  unfold testReset
  cases hreset : flag s.device.regs 15 with
  | true => exact nothingPending_clearFlag _ 15 (by decide) (h hreset)
  | false => trivial

theorem flagsInv_afterIds (s : State) (h : flag s.device.regs 15 = true → NothingPending s.device.regs) :
    FlagsInv (afterIds s) := by
  unfold afterIds
  cases s.isConfigUpdata with
  | true => exact h
  | false => exact flagsInv_testReset s h

/-- The registers after the first two tests. -/
theorem blocks_regs (d : Device) : (overtimeBlock (modbusBlock d)).regs = clearFlag (clearFlag d.regs 0) 1 := by
  rw [overtimeBlock_regs, modbusBlock_regs]

theorem blocks_flags (d : Device) :
    flag (overtimeBlock (modbusBlock d)).regs 0 = false ∧ flag (overtimeBlock (modbusBlock d)).regs 1 = false := by
  rw [blocks_regs, flag_clearFlag _ 0 1 (by decide)]
  exact ⟨flag_clearFlag_self _ 0, flag_clearFlag_self _ 1⟩

theorem flagsInv_thread (nullString : NullString) (s : State) (h : FlagsInv s) :
    FlagsInv (threadStep nullString s) := by
  unfold threadStep
  cases hpc : s.pc with
  | delay =>
    obtain ⟨h₀, h₁⟩ := blocks_flags s.device
    simp only
    cases h₃ : flag (afterBlocks s).device.regs 3 with
    | true => exact fun _ => ⟨h₀, h₁⟩
    | false => exact flagsInv_afterIds _ fun _ => ⟨h₀, h₁, h₃⟩
  | saving i =>
    simp only [FlagsInv, hpc] at h
    simp only
    by_cases hi : i ≤ 255
    · rw [if_pos hi]
      exact h
    · rw [if_neg hi]
      apply flagsInv_afterIds
      intro hreset
      simp only [NothingPending] at hreset ⊢
      rw [flag_clearFlag _ 15 3 (by decide)] at hreset
      rw [flag_clearFlag _ 0 3 (by decide), flag_clearFlag _ 1 3 (by decide)]
      exact ⟨(h hreset).1, (h hreset).2, flag_clearFlag_self _ 3⟩
  | creating =>
    simp only [FlagsInv, hpc] at h
    cases hjson : createJsonFile nullString s.device.config with
    | none => simpa only [FlagsInv, hpc] using h
    | some file => exact flagsInv_testReset _ h
  | resetting => simpa only [FlagsInv, hpc] using h

theorem flagsInv_step (nullString : NullString) (s : State) (l : Label) (h : FlagsInv s) (hl : notLate s l) :
    FlagsInv (step nullString s l) := by
  cases l with
  | thread => exact flagsInv_thread nullString s h
  | boot nullInt tail =>
    simp only [step]
    split
    · trivial
    · exact h
  | host w =>
    simp only [step]
    split
    · exact h
    · simp only [notLate] at hl
      simp only [FlagsInv] at h ⊢
      cases hpc : s.pc with
      | delay => trivial
      | saving i => simpa only [hpc] using hl
      | creating => simpa only [hpc] using hl
      | resetting => contradiction

end Bits

section Requests

variable {α : Type}

/-- The last request is still pending in its present form, or done. -/
def Answered (asked : Option α) (pending : Bool) (current done : α → Prop) : Prop :=
  ∀ w, asked = some w → pending = true ∧ current w ∨ pending = false ∧ done w

theorem answered_note (old : Option α) (before after : Bool) (value : α) (current current' done done' : α → Prop)
    (h : Answered old before current done) (hcurrent : current' value) (hdone : ∀ w, done w → done' w) :
    Answered (note before after value old) after current' done' := by
  intro w hw
  cases after with
  | true =>
    obtain rfl : value = w := by simpa [note] using hw
    exact .inl ⟨rfl, hcurrent⟩
  | false =>
    cases before with
    | true => simp [note] at hw
    | false =>
      rcases h w (by simpa [note] using hw) with ⟨hbit, -⟩ | ⟨-, hw⟩
      · cases hbit
      · exact .inr ⟨rfl, hdone w hw⟩

theorem answered_clear (asked : Option α) (pending : Bool) (current current' done done' : α → Prop)
    (h : Answered asked pending current done) (hcurrent : ∀ w, pending = true → current w → done' w)
    (hdone : ∀ w, pending = false → done w → done' w) : Answered asked false current' done' := by
  intro w hw
  rcases h w hw with ⟨hbit, hw⟩ | ⟨hbit, hw⟩
  · exact .inr ⟨rfl, hcurrent w hbit hw⟩
  · exact .inr ⟨rfl, hdone w hbit hw⟩

theorem answered_mono (asked : Option α) (pending : Bool) (current current' done done' : α → Prop)
    (h : Answered asked pending current done) (hcurrent : ∀ w, current w → current' w)
    (hdone : ∀ w, done w → done' w) : Answered asked pending current' done' := by
  intro w hw
  rcases h w hw with ⟨hbit, hw⟩ | ⟨hbit, hw⟩
  · exact .inl ⟨hbit, hcurrent w hw⟩
  · exact .inr ⟨hbit, hdone w hw⟩

theorem answered_done (asked : Option α) (pending : Bool) (current done : α → Prop)
    (h : Answered asked pending current done) (hp : pending = false) (w : α) (hw : asked = some w) : done w := by
  rcases h w hw with ⟨hbit, -⟩ | ⟨-, hdone⟩
  · rw [hp] at hbit
    cases hbit
  · exact hdone

end Requests

section Persistence

variable (nullString : NullString)

/-- The Modbus parameters are those of the given value of register 0. -/
def ModbusTaken (config : ConfigTable) (w : U16) : Prop :=
  (config 0).parameter = selectedBaudrate w ∧ (config 1).parameter = (w &&& 0x00FF#16).setWidth 32

/-- The node timeout is that of the given value of register 1. -/
def OvertimeTaken (config : ConfigTable) (w : U16) : Prop :=
  (config 2).parameter = (w &&& 0x00FF#16).setWidth 32

/-- The JSON file was written from the configuration in memory. -/
def ConfigSaved (d : Device) : Prop := ∃ file, createJsonFile nullString d.config = some file ∧ d.json = some file

/-- Every request since the last boot is in memory and in its file. -/
structure Persisted (s : State) : Prop where
  modbus : ∀ w, s.asked.modbus = some w → ModbusTaken s.device.config w ∧ ConfigSaved nullString s.device
  overtime : ∀ w, s.asked.overtime = some w → OvertimeTaken s.device.config w ∧ ConfigSaved nullString s.device
  ids : ∀ t, s.asked.ids = some t → Stores s.device.csv (idAt t)

/-- The configuration is saved or will be before the turn ends. -/
def Saving (s : State) : Prop := s.isConfigUpdata = true ∨ ConfigSaved nullString s.device

/-- Requests for the configuration. -/
structure ConfigKept (s : State) : Prop where
  modbus : Answered s.asked.modbus (flag s.device.regs 0) (fun w => s.device.regs 0 = w)
    fun w => ModbusTaken s.device.config w ∧ Saving nullString s
  overtime : Answered s.asked.overtime (flag s.device.regs 1) (fun w => s.device.regs 1 = w)
    fun w => OvertimeTaken s.device.config w ∧ Saving nullString s

/-- Requests for the IDs; `done` is what holds of them once the bit is cleared. -/
def IdsAnswered (s : State) (done : Table → Prop) : Prop :=
  Answered s.asked.ids (flag s.device.regs 3) (fun t => ∀ i, idAt t i = idAt s.device.regs i) done

/-- The ID file has all rows of the table. -/
def IdsSaved (s : State) (t : Table) : Prop := s.device.csv = some (linesText (idAt t) (List.range nodeCount))

def IdsKept (s : State) : Prop :=
  match s.pc with
  | .saving i =>
    (i ≤ nodeCount ∧ s.str = printBuffer ∧ s.device.csv = some (linesText (idAt s.device.regs) (List.range i))) ∧
      IdsAnswered s fun _ => False
  | _ => IdsAnswered s (IdsSaved s)

def FlagKept (s : State) : Prop := s.pc = .delay ∨ s.pc = .resetting → s.isConfigUpdata = false

structure Inv (s : State) : Prop where
  config : ConfigKept nullString s
  ids : IdsKept s
  updated : FlagKept s

/-- A request does not touch the IDs of rows that the running save has written. -/
def undisturbed (s : State) : Label → Prop
  | .host w =>
    match s.pc with
    | .saving i => ∀ j < i, idAt (w.apply s.device.regs) j = idAt s.device.regs j
    | _ => True
  | _ => True

theorem inv_host (s : State) (w : HostWrite) (h : Inv nullString s) (hw : undisturbed s (.host w)) :
    Inv nullString (step nullString s (.host w)) := by
  simp only [step]
  split
  · exact h
  · refine ⟨⟨?_, ?_⟩, ?_, h.updated⟩
    · exact answered_note _ _ _ _ _ _ _ _ h.config.modbus rfl fun _ hdone => hdone
    · exact answered_note _ _ _ _ _ _ _ _ h.config.overtime rfl fun _ hdone => hdone
    · have hids := h.ids
      simp only [IdsKept] at hids ⊢
      simp only [undisturbed] at hw
      cases hpc : s.pc with
      | saving i =>
        simp only [hpc] at hids hw ⊢
        obtain ⟨⟨hi, hstr, hcsv⟩, hasked⟩ := hids
        refine ⟨⟨hi, hstr, ?_⟩, ?_⟩
        · rw [linesText_congr _ (idAt s.device.regs) i hw]
          exact hcsv
        · exact answered_note _ _ _ _ _ _ _ _ hasked (fun _ => rfl) fun _ hdone => hdone
      | delay =>
        simp only [hpc] at hids ⊢
        exact answered_note _ _ _ _ _ _ _ _ hids (fun _ => rfl) fun _ hdone => hdone
      | creating =>
        simp only [hpc] at hids ⊢
        exact answered_note _ _ _ _ _ _ _ _ hids (fun _ => rfl) fun _ hdone => hdone
      | resetting => contradiction

/-- Clearing another bit leaves the requests as they are. -/
theorem configKept_clearFlag (s : State) (k : Nat) (hk : k ≠ 0 ∧ k ≠ 1) (h : ConfigKept nullString s) :
    ConfigKept nullString { s with device := { s.device with regs := clearFlag s.device.regs k } } := by
  have h₀ : clearFlag s.device.regs k 0 = s.device.regs 0 := clearFlag_other _ k 0 (by decide)
  have h₁ : clearFlag s.device.regs k 1 = s.device.regs 1 := clearFlag_other _ k 1 (by decide)
  refine ⟨?_, ?_⟩
  · simp only [flag_clearFlag _ 0 k hk.1.symm, h₀]
    exact h.modbus
  · simp only [flag_clearFlag _ 1 k hk.2.symm, h₁]
    exact h.overtime

theorem inv_testReset (s : State) (hconfig : ConfigKept nullString s) (hids : IdsAnswered s (IdsSaved s))
    (hupdated : s.isConfigUpdata = false) : Inv nullString (testReset s) := by
  unfold testReset
  cases flag s.device.regs 15 with
  | true =>
    obtain ⟨hmodbus, hovertime⟩ := configKept_clearFlag nullString s 15 (by decide) hconfig
    refine ⟨⟨hmodbus, hovertime⟩, ?_, fun _ => hupdated⟩
    simp only [if_true, IdsKept, IdsAnswered, flag_clearFlag _ 3 15 (by decide), idAt_clearFlag]
    exact hids
  | false => exact ⟨⟨hconfig.modbus, hconfig.overtime⟩, hids, fun _ => hupdated⟩

theorem inv_afterIds (s : State) (hconfig : ConfigKept nullString s) (hids : IdsAnswered s (IdsSaved s)) :
    Inv nullString (afterIds s) := by
  unfold afterIds
  by_cases hupdated : s.isConfigUpdata = true
  · rw [if_pos hupdated]
    refine ⟨⟨hconfig.modbus, hconfig.overtime⟩, hids, ?_⟩
    rintro (hpc | hpc) <;> cases hpc
  · rw [if_neg hupdated]
    exact inv_testReset nullString s hconfig hids (Bool.eq_false_iff.mpr hupdated)

theorem blocks_config (d : Device) : (overtimeBlock (modbusBlock d)).config = requestedConfig d := by
  rw [← beforeSave_requested, beforeSave, deviceIdBlock_config]

theorem blocks_files (d : Device) :
    (overtimeBlock (modbusBlock d)).json = d.json ∧ (overtimeBlock (modbusBlock d)).csv = d.csv := by
  unfold overtimeBlock modbusBlock
  split <;> split <;> exact ⟨rfl, rfl⟩

theorem requestedConfig_quiet (d : Device) (h₀ : flag d.regs 0 = false) (h₁ : flag d.regs 1 = false) :
    requestedConfig d = d.config := by
  funext i
  match i with
  | 0 => simp [requestedConfig, h₀]
  | 1 => simp [requestedConfig, h₀]
  | 2 => simp [requestedConfig, h₁]
  | i + 3 => rfl

theorem saving_blocks (s : State) (h : Saving nullString s) : Saving nullString (afterBlocks s) := by
  cases hupdated : s.isConfigUpdata || SaveConfig.isConfigUpdata s.device with
  | true => exact .inl hupdated
  | false =>
    simp only [isConfigUpdata_eq, Bool.or_eq_false_iff] at hupdated
    obtain ⟨hbefore, h₀, h₁⟩ := hupdated
    rcases h with h | ⟨file, hprint, hjson⟩
    · rw [hbefore] at h
      cases h
    · refine .inr ⟨file, ?_, ?_⟩
      · rw [afterBlocks, blocks_config, requestedConfig_quiet _ h₀ h₁, hprint]
      · rw [afterBlocks, (blocks_files _).1, hjson]

/-- The first two tests of a turn take over what is asked for and mark it for saving. -/
theorem configKept_blocks (s : State) (h : ConfigKept nullString s) : ConfigKept nullString (afterBlocks s) := by
  obtain ⟨hbit₀, hbit₁⟩ := blocks_flags s.device
  have hconfig : (afterBlocks s).device.config = requestedConfig s.device := blocks_config s.device
  have hmark (hflag : flag s.device.regs 0 = true ∨ flag s.device.regs 1 = true) : Saving nullString (afterBlocks s) := by
    refine .inl ?_
    simp only [afterBlocks, isConfigUpdata_eq, Bool.or_eq_true]
    exact .inr hflag
  refine ⟨?_, ?_⟩
  · rw [afterBlocks, hbit₀]
    refine answered_clear _ _ _ _ _ _ h.modbus ?_ ?_
    · rintro w hflag rfl
      refine ⟨?_, hmark (.inl hflag)⟩
      rw [← afterBlocks, hconfig]
      simp [ModbusTaken, requestedConfig, hflag]
    · rintro w hflag ⟨htaken, hsaving⟩
      refine ⟨?_, saving_blocks nullString s hsaving⟩
      rw [← afterBlocks, hconfig]
      simpa [ModbusTaken, requestedConfig, hflag] using htaken
  · rw [afterBlocks, hbit₁]
    refine answered_clear _ _ _ _ _ _ h.overtime ?_ ?_
    · rintro w hflag rfl
      refine ⟨?_, hmark (.inr hflag)⟩
      rw [← afterBlocks, hconfig]
      simp [OvertimeTaken, requestedConfig, hflag]
    · rintro w hflag ⟨htaken, hsaving⟩
      refine ⟨?_, saving_blocks nullString s hsaving⟩
      rw [← afterBlocks, hconfig]
      simpa [OvertimeTaken, requestedConfig, hflag] using htaken

theorem idAt_blocks (s : State) (i : Nat) : idAt (afterBlocks s).device.regs i = idAt s.device.regs i := by
  rw [afterBlocks, blocks_regs, idAt_clearFlag, idAt_clearFlag]

theorem flag_blocks (s : State) : flag (afterBlocks s).device.regs 3 = flag s.device.regs 3 := by
  rw [afterBlocks, blocks_regs, flag_clearFlag _ 3 1 (by decide), flag_clearFlag _ 3 0 (by decide)]

theorem idsAnswered_blocks (s : State) (h : IdsAnswered s (IdsSaved s)) :
    IdsAnswered (afterBlocks s) (IdsSaved (afterBlocks s)) := by
  rw [IdsAnswered, flag_blocks]
  refine answered_mono _ _ _ _ _ _ h ?_ ?_
  · intro t ht i
    rw [idAt_blocks, ht i]
  · intro t ht
    rw [IdsSaved, afterBlocks, (blocks_files s.device).2]
    exact ht

theorem inv_delay (s : State) (hpc : s.pc = .delay) (h : Inv nullString s) : Inv nullString (threadStep nullString s) := by
  have hconfig := configKept_blocks nullString s h.config
  have hids := h.ids
  simp only [IdsKept, hpc] at hids
  have hasked := idsAnswered_blocks s hids
  simp only [threadStep, hpc]
  by_cases h₃ : flag (afterBlocks s).device.regs 3 = true
  · rw [if_pos h₃]
    refine ⟨⟨hconfig.modbus, hconfig.overtime⟩, ⟨⟨by decide, rfl, rfl⟩, ?_⟩, ?_⟩
    · intro t ht
      rcases hasked t ht with hcurrent | ⟨hbit, -⟩
      · exact .inl hcurrent
      · rw [h₃] at hbit
        cases hbit
    · rintro (hpc | hpc) <;> cases hpc
  · rw [if_neg h₃]
    exact inv_afterIds nullString _ hconfig hasked

theorem inv_saving (s : State) (i : Nat) (hpc : s.pc = .saving i) (h : Inv nullString s) :
    Inv nullString (threadStep nullString s) := by
  have hids := h.ids
  simp only [IdsKept, hpc] at hids
  obtain ⟨⟨hi, hstr, hcsv⟩, hasked⟩ := hids
  simp only [threadStep, hpc]
  by_cases hallowed : i ≤ 255
  · rw [if_pos hallowed, hstr, saveDeviceIdRow_eq s.device.regs i (by omega)]
    refine ⟨⟨h.config.modbus, h.config.overtime⟩, ⟨⟨by simp only [nodeCount]; omega, rfl, ?_⟩, hasked⟩, ?_⟩
    · simp only [hcsv, Option.map_some, linesText_succ]
    · rintro (hpc | hpc) <;> cases hpc
  · obtain rfl : i = nodeCount := by simp only [nodeCount] at hi ⊢; omega
    rw [if_neg hallowed]
    apply inv_afterIds
    · obtain ⟨hmodbus, hovertime⟩ := configKept_clearFlag nullString s 3 (by decide) h.config
      exact ⟨hmodbus, hovertime⟩
    · simp only [IdsAnswered, flag_clearFlag_self]
      refine answered_clear _ _ _ _ _ _ hasked ?_ fun _ _ hno => hno.elim
      intro t _ ht
      rw [IdsSaved, hcsv, linesText_congr (idAt s.device.regs) (idAt t) nodeCount fun i _ => (ht i).symm]

theorem inv_creating (s : State) (hpc : s.pc = .creating) (h : Inv nullString s) :
    Inv nullString (threadStep nullString s) := by
  have hids := h.ids
  simp only [IdsKept, hpc] at hids
  simp only [threadStep, hpc]
  cases hjson : createJsonFile nullString s.device.config with
  | none => exact h
  | some file =>
    have hsaved : Saving nullString
        { s with device := { s.device with json := some file }, isConfigUpdata := false } := .inr ⟨file, hjson, rfl⟩
    refine inv_testReset nullString _ ⟨?_, ?_⟩ hids rfl
    · exact answered_mono _ _ _ _ _ _ h.config.modbus (fun _ hw => hw) fun _ hw => ⟨hw.1, hsaved⟩
    · exact answered_mono _ _ _ _ _ _ h.config.overtime (fun _ hw => hw) fun _ hw => ⟨hw.1, hsaved⟩

theorem inv_step (s : State) (l : Label) (h : Inv nullString s) (hl : undisturbed s l) :
    Inv nullString (step nullString s l) := by
  cases l with
  | host w => exact inv_host nullString s w h hl
  | thread =>
    cases hpc : s.pc with
    | delay => exact inv_delay nullString s hpc h
    | saving i => exact inv_saving nullString s i hpc h
    | creating => exact inv_creating nullString s hpc h
    | resetting =>
      simp only [step, threadStep, hpc]
      exact h
  | boot nullInt tail =>
    simp only [step]
    split
    · refine ⟨⟨?_, ?_⟩, ?_, fun _ => rfl⟩ <;> exact fun w hw => nomatch hw
    · exact h

theorem inv_start (device : Device) : Inv nullString (start device) := by
  refine ⟨⟨?_, ?_⟩, ?_, fun _ => rfl⟩ <;> exact fun w hw => nomatch hw

/-- With no bit left set, every request has been answered. -/
theorem persisted_of_inv (s : State) (hpc : s.pc = .resetting) (h : Inv nullString s)
    (hflags : NothingPending s.device.regs) : Persisted nullString s := by
  obtain ⟨h₀, h₁, h₃⟩ := hflags
  have hupdated := h.updated (.inr hpc)
  have hsaved (hs : Saving nullString s) : ConfigSaved nullString s.device := by
    rcases hs with hs | hs
    · rw [hupdated] at hs
      cases hs
    · exact hs
  have hids := h.ids
  simp only [IdsKept, hpc] at hids
  refine ⟨?_, ?_, ?_⟩
  · intro w hw
    obtain ⟨htaken, hsaving⟩ := answered_done _ _ _ _ h.config.modbus h₀ w hw
    exact ⟨htaken, hsaved hsaving⟩
  · intro w hw
    obtain ⟨htaken, hsaving⟩ := answered_done _ _ _ _ h.config.overtime h₁ w hw
    exact ⟨htaken, hsaved hsaving⟩
  · intro t ht
    have hfile : IdsSaved s t := answered_done _ _ _ _ hids h₃ t ht
    rw [hfile]
    exact stores_lines (idAt t)

end Persistence

section Reset

/-- In a run without a late request, nothing is pending at any reset; and unless a request also disturbed a save of
the IDs, every request up to then has been applied and is in its file. -/
theorem reset_discards_nothing (nullString : NullString) (device : Device) (labels : List Label)
    (h : Allowed (step nullString) notLate (start device) labels) :
    ∀ reached, reached <+: labels → (run (step nullString) (start device) reached).pc = .resetting →
      NothingPending (run (step nullString) (start device) reached).device.regs ∧
      (Allowed (step nullString) undisturbed (start device) reached →
        Persisted nullString (run (step nullString) (start device) reached)) := by
  rintro reached ⟨rest, rfl⟩ hpc
  rw [allowed_append] at h
  have hflags := invariant_of_allowed (flagsInv_step nullString) (start device) reached trivial h.1
  simp only [FlagsInv, hpc] at hflags
  refine ⟨hflags, ?_⟩
  intro hids
  have hinv := invariant_of_allowed (inv_step nullString) (start device) reached (inv_start nullString device) hids
  exact persisted_of_inv nullString _ hpc hinv hflags

theorem thread_creating (nullString : NullString) (s : State) (hpc : s.pc = .delay)
    (h₀ : flag s.device.regs 0 = true) (h₃ : flag s.device.regs 3 = false) :
    (threadStep nullString s).pc = .creating ∧ (threadStep nullString s).device = (afterBlocks s).device := by
  have hupdated : (afterBlocks s).isConfigUpdata = true := by
    simp only [afterBlocks, isConfigUpdata_eq, h₀, Bool.true_or, Bool.or_true]
  rw [← flag_blocks] at h₃
  simp only [threadStep, hpc, h₃, Bool.false_eq_true, if_false, afterIds, hupdated, if_true, and_self]

/-- With the names of the factory the save ends, and the reset bit is looked at as it then stands. -/
theorem thread_resetting (nullString : NullString) (s : State) (hpc : s.pc = .creating)
    (hnames : DefaultNames s.device.config) (hreset : flag s.device.regs 15 = true) :
    (threadStep nullString s).pc = .resetting ∧
      (threadStep nullString s).device.regs = clearFlag s.device.regs 15 := by
  obtain ⟨file, hfile⟩ := createJsonFile_defaultNames nullString s.device.config hnames
  simp only [threadStep, hpc, hfile, testReset, hreset, if_true, and_self]

theorem defaultNames_blocks (s : State) (h : DefaultNames s.device.config) :
    DefaultNames (afterBlocks s).device.config := by
  intro i hi
  rw [afterBlocks, blocks_config, requestedConfig_name]
  exact h i hi

/-- The board as it left the factory. -/
def factory : Device := ⟨zeroTable, defaultConfig, none, none⟩

/-- A new slave address, with the reset asked for in the same write. -/
def addressAndReset : HostWrite := ⟨[(0, 0x0305#16), (configFlagAddress, 0x8001#16)], by simp⟩

/-- A request for the address alone. -/
def addressOnly : HostWrite := ⟨[(0, 0x0304#16), (configFlagAddress, 0x0001#16)], by simp⟩

/-- A new slave address and the IDs, with the reset asked for in the same write. -/
def addressIdsAndReset : HostWrite := ⟨[(0, 0x0305#16), (configFlagAddress, 0x8009#16)], by simp⟩

/-- An ID for node 1, without a request. -/
def idOfNodeOne : HostWrite := ⟨[(0x70A, 7#16)], by simp⟩

/-- A node timeout, without a request. -/
def overtimeUnasked : HostWrite := ⟨[(1, 20#16)], by simp⟩

/-- The thread saves the IDs; one of them is written when the first row is out. -/
def savingIds (w : HostWrite) : List Label :=
  .thread :: .thread :: .host w :: List.replicate (nodeCount - 1 + 1) .thread

/-- The ID file is open, and has its first row. -/
theorem thread_saving (nullString : NullString) (s : State) (hpc : s.pc = .delay)
    (h₃ : flag s.device.regs 3 = true) :
    threadStep nullString (threadStep nullString s) = { afterBlocks s with
      device := { (afterBlocks s).device with csv := some (linesText (idAt s.device.regs) (List.range 1)) }
      str := printBuffer
      pc := .saving 1 } := by
  have hopened : threadStep nullString s = { afterBlocks s with
      device := { (afterBlocks s).device with csv := some [] }
      str := printBuffer
      pc := .saving 0 } := by
    rw [← flag_blocks] at h₃
    simp only [threadStep, hpc, h₃, if_true]
  have hid : idAt (afterBlocks s).device.regs 0 = idAt s.device.regs 0 := by
    rw [afterBlocks, blocks_regs, idAt_clearFlag, idAt_clearFlag]
  rw [hopened, linesText_succ]
  simp only [threadStep, if_pos (Nat.zero_le 255), saveDeviceIdRow_eq _ 0 (by decide), hid, Option.map_some,
    List.nil_append]
  rfl

/-- A write behind the first row, and the rows that follow: the thread comes to the save of the configuration. -/
theorem run_savingIds (nullString : NullString) (s : State) (hpc : s.pc = .delay) (h₀ : flag s.device.regs 0 = true)
    (h₃ : flag s.device.regs 3 = true) (w : HostWrite)
    (hfirst : idAt (w.apply (clearFlag (clearFlag s.device.regs 0) 1)) 0 = idAt s.device.regs 0) :
    let t := run (step nullString) s (savingIds w)
    t.pc = .creating ∧ t.device.config = (afterBlocks s).device.config ∧
      t.device.regs = clearFlag (w.apply (clearFlag (clearFlag s.device.regs 0) 1)) 3 := by
  intro t
  have hregs : (afterBlocks s).device.regs = clearFlag (clearFlag s.device.regs 0) 1 := by rw [afterBlocks, blocks_regs]
  have hupdated : (afterBlocks s).isConfigUpdata = true := by
    simp only [afterBlocks, isConfigUpdata_eq, h₀, Bool.true_or, Bool.or_true]
  have ht : t = run (step nullString) (step nullString (threadStep nullString (threadStep nullString s)) (.host w))
      (List.replicate (nodeCount - 1 + 1) .thread) := by
    rw [← step_thread, ← step_thread, ← run_cons, ← run_cons, ← run_cons]
    rfl
  have hcsv : some (linesText (idAt s.device.regs) (List.range 1)) =
      some (linesText (idAt (w.apply (afterBlocks s).device.regs)) (List.range 1)) := by
    have hone (ids : Nat → U32) : linesText ids (List.range 1) = rowText 0 (ids 0) := List.append_nil _
    rw [hregs, hone, hone, hfirst]
  rw [thread_saving nullString s hpc h₃, step, if_neg nofun] at ht
  rw [run_rows nullString _ 1 rfl (by decide) rfl hcsv, afterIds, if_pos hupdated] at ht
  rw [ht, ← hregs]
  exact ⟨rfl, rfl, rfl⟩

/-- What may happen at any point of the thread may happen all along the rows. -/
theorem allowed_savingIds (nullString : NullString) (ok : State → Label → Prop) (hthread : ∀ s, ok s .thread)
    (s : State) (w : HostWrite) (hw : ok (threadStep nullString (threadStep nullString s)) (.host w)) :
    Allowed (step nullString) ok s (savingIds w) := by
  have hrows (n : Nat) (t : State) : Allowed (step nullString) ok t (List.replicate n .thread) :=
    allowed_of_forall t _ fun l hl s => List.eq_of_mem_replicate hl ▸ hthread s
  exact ⟨hthread _, hthread _, hw, hrows _ _⟩

/-- The host writes an ID when one row has been saved, and a node timeout while the configuration is being saved. -/
def interruptedSaves : List Label :=
  .host addressIdsAndReset :: (savingIds idOfNodeOne ++ [.host overtimeUnasked, .thread])

/-- The thread takes the address over, saves it and the IDs, the new one included, and resets. -/
theorem address_kept_over_reset :
    NothingPending (run (step emptyNull) (start factory) interruptedSaves).device.regs ∧
      Persisted emptyNull (run (step emptyNull) (start factory) interruptedSaves) := by
  generalize hs₁ : step emptyNull (start factory) (.host addressIdsAndReset) = s₁
  have hpc₁ : s₁.pc = .delay := by
    rw [← hs₁]
    rfl
  have hregs₁ : s₁.device.regs = addressIdsAndReset.apply zeroTable := by
    rw [← hs₁]
    rfl
  have hnames₁ : DefaultNames (afterBlocks s₁).device.config := by
    rw [← hs₁]
    exact defaultNames_blocks _ fun _ _ => rfl
  have hflags₁ : flag s₁.device.regs 0 = true ∧ flag s₁.device.regs 3 = true := by
    rw [hregs₁]
    decide
  have hsaving := thread_saving emptyNull s₁ hpc₁ hflags₁.2
  obtain ⟨hpc₂, hconfig₂, hregs₂⟩ := run_savingIds emptyNull s₁ hpc₁ hflags₁.1 hflags₁.2 idOfNodeOne (by
    rw [hregs₁]
    decide)
  have hallowed (ok : State → Label → Prop) (hthread : ∀ s, ok s .thread)
      (hfirst : ok (start factory) (.host addressIdsAndReset))
      (hids : ok (threadStep emptyNull (threadStep emptyNull s₁)) (.host idOfNodeOne))
      (hconfig : ok (run (step emptyNull) s₁ (savingIds idOfNodeOne)) (.host overtimeUnasked)) :
      Allowed (step emptyNull) ok (start factory) interruptedSaves := by
    refine ⟨hfirst, ?_⟩
    rw [hs₁, allowed_append]
    exact ⟨allowed_savingIds emptyNull ok hthread s₁ idOfNodeOne hids, hconfig, hthread _, trivial⟩
  have hs : run (step emptyNull) (start factory) interruptedSaves = threadStep emptyNull
      (step emptyNull (run (step emptyNull) s₁ (savingIds idOfNodeOne)) (.host overtimeUnasked)) := by
    rw [interruptedSaves, run_cons, hs₁, run_append, run_cons, run_cons, run_nil, step_thread]
  generalize run (step emptyNull) s₁ (savingIds idOfNodeOne) = s₂ at *
  rw [hregs₁] at hregs₂
  obtain ⟨hpc₃, hconfig₃, hregs₃⟩ := step_host emptyNull s₂ overtimeUnasked (by rw [hpc₂]; exact nofun)
  have hend := thread_resetting emptyNull _ (hpc₃.trans hpc₂) (by rw [hconfig₃, hconfig₂]; exact hnames₁) (by
    rw [hregs₃, hregs₂]
    decide)
  have hlate : Allowed (step emptyNull) notLate (start factory) interruptedSaves := by
    apply hallowed notLate fun _ => trivial
    · trivial
    · rw [hsaving]
      show flag (idOfNodeOne.apply (afterBlocks s₁).device.regs) 15 = true → _
      rw [afterBlocks, blocks_regs, hregs₁]
      exact fun _ => by decide
    · rw [notLate, hpc₂, hregs₂]
      exact fun _ => by unfold NothingPending; decide
  have hids : Allowed (step emptyNull) undisturbed (start factory) interruptedSaves := by
    apply hallowed undisturbed fun _ => trivial
    · trivial
    · rw [hsaving]
      intro j hj
      obtain rfl : j = 0 := Nat.lt_one_iff.mp hj
      show idAt (idOfNodeOne.apply (afterBlocks s₁).device.regs) 0 = idAt (afterBlocks s₁).device.regs 0
      rw [afterBlocks, blocks_regs, hregs₁]
      decide
    · rw [undisturbed, hpc₂]
      trivial
  have hpc : (run (step emptyNull) (start factory) interruptedSaves).pc = .resetting := by
    rw [hs]
    exact hend.1
  obtain ⟨hflags, hkept⟩ := reset_discards_nothing emptyNull factory _ hlate _ (List.prefix_refl _) hpc
  exact ⟨hflags, hkept hids⟩

/-- The second request comes while the first one is being saved: the reset finds bit 0 set. -/
theorem late_request_discarded :
    (run (step emptyNull) (start factory)
        [.host addressOnly, .thread, .host addressAndReset, .thread]).pc = .resetting ∧
      ¬NothingPending (run (step emptyNull) (start factory)
        [.host addressOnly, .thread, .host addressAndReset, .thread]).device.regs := by
  generalize hs : step emptyNull (start factory) (.host addressOnly) = s
  have hnames : DefaultNames s.device.config := by
    rw [← hs]
    exact fun _ _ => rfl
  obtain ⟨hcreating, hdevice⟩ := thread_creating emptyNull s (by rw [← hs]; rfl) (by rw [← hs]; decide)
    (by rw [← hs]; decide)
  obtain ⟨hpc, hconfig, hregs⟩ := step_host emptyNull (threadStep emptyNull s) addressAndReset (by simp [hcreating])
  rw [hcreating] at hpc
  rw [hdevice] at hconfig hregs
  rw [run_cons, hs, run_cons, step_thread, run_cons, run_cons, run_nil, step_thread]
  generalize step emptyNull (threadStep emptyNull s) (.host addressAndReset) = t at *
  have hflag : flag t.device.regs 0 = true ∧ flag t.device.regs 15 = true := by
    rw [hregs, ← hs]
    decide
  obtain ⟨hreset, hcleared⟩ := thread_resetting emptyNull t hpc
    (by rw [hconfig]; exact defaultNames_blocks s hnames) hflag.2
  refine ⟨hreset, ?_⟩
  rintro ⟨h₀, -⟩
  rw [hcleared, flag_clearFlag _ 0 15 (by decide), hflag.1] at h₀
  cases h₀

end Reset

end DataReceiveRelay.ResetRequest
