import DataReceiveRelay.Overtime
import DataReceiveRelay.SaveConfig

/-!
# The timeout in force

`TaskCheckOverTimeThreadEntry` reads the configured timeout once, before its
loop. `SaveConfigThreadEntry` sets it from the file when it starts and from
register 1 at each request. Every other thread may run between two blocks of
the save thread, and the two threads may start in either order.
-/

namespace DataReceiveRelay.NodeTimeout

open Words Runs Registers Json Config DeviceIdFile SaveConfig

/-- The block of the save thread that comes next. -/
inductive Point where
  | load | modbus | overtime | deviceId | create | reset
  deriving DecidableEq, Repr

/-- `overtime` is the local variable of the timeout thread once it runs, `setTo` the value the save
thread last set the parameter to. -/
structure State where
  device : Device
  point : Point
  isConfigUpdata : Bool
  hung : Bool
  timer : U32
  overtime : Option U32
  setTo : Option U32

inductive Label where
  | startOvertime
  | tick
  | sweep
  | write (a : Nat) (v : U16)
  | save (nullInt : U32) (tail : Bytes)

/-- What the save thread does before its loop. -/
def loadBlock (nullInt : U32) (tail : Bytes) (s : Device) : Device :=
  let config := (getJsonFile s.json tail s.config).2
  let regs := configModbusHoldRegister config s.regs
  { s with config := config, regs := ((readDeviceIdFile nullInt s.csv regs).2.map Reading.regs).getD regs }

/-- The timeout the load sets, if the file has an entry for it. -/
def loadedOvertime (tail : Bytes) (s : Device) : Option U32 :=
  if 2 ∈ (fileWrites s.json tail).map Prod.fst then some ((getJsonFile s.json tail s.config).2 2).parameter
  else none

/-- The timeout a request sets. -/
def requestedOvertime (s : Device) : Option U32 :=
  if flag s.regs 1 then some ((s.regs 1 &&& 0x00FF#16).setWidth 32) else none

/-- The board after a reset, with the files it finds. -/
def powerUp (json csv : Option Bytes) : State :=
  { device := ⟨zeroTable, defaultConfig, json, csv⟩, point := .load, isConfigUpdata := false, hung := false,
    timer := 0#32, overtime := none, setTo := none }

/-- One block of the save thread. -/
def saveStep (nullString : NullString) (nullInt : U32) (tail : Bytes) (s : State) : State :=
  match s.point with
  | .load =>
    { s with device := loadBlock nullInt tail s.device, point := .modbus,
             setTo := (loadedOvertime tail s.device).or s.setTo }
  | .modbus =>
    { s with device := modbusBlock s.device, point := .overtime,
             isConfigUpdata := s.isConfigUpdata || flag s.device.regs 0 }
  | .overtime =>
    { s with device := overtimeBlock s.device, point := .deviceId,
             isConfigUpdata := s.isConfigUpdata || flag s.device.regs 1,
             setTo := (requestedOvertime s.device).or s.setTo }
  | .deviceId => { s with device := deviceIdBlock s.device, point := .create }
  | .create =>
    match saveBlock nullString s.isConfigUpdata s.device with
    | none => { s with hung := true }
    | some device => { s with device := device, point := .reset, isConfigUpdata := false }
  | .reset => if flag s.device.regs 15 then powerUp s.device.json s.device.csv else { s with point := .modbus }

def step (nullString : NullString) (s : State) : Label → State
  | .startOvertime =>
    match s.overtime with
    | none => { s with overtime := some ((s.device.config 2).parameter * 60#32) }
    | some _ => s
  | .tick => { s with timer := Overtime.nodeOvertimeTiming s.timer }
  | .sweep =>
    match s.overtime with
    | none => s
    | some overtime =>
      { s with device := { s.device with regs := Overtime.sweep s.timer overtime s.device.regs } }
  | .write a v => { s with device := { s.device with regs := Function.update s.device.regs a v } }
  | .save nullInt tail => if s.hung then s else saveStep nullString nullInt tail s

/-- A sweep that starts here judges against the minutes set last. -/
def InForce (s : State) : Prop :=
  ∀ overtime ∈ s.overtime, ∀ m ∈ s.setTo, (overtime.toNat : Int) = m.toInt * 60

/-- The value a step of the save thread is about to set. -/
def written (s : State) : Label → Option U32
  | .save _ tail =>
    if s.hung then none
    else
      match s.point with
      | .load => loadedOvertime tail s.device
      | .overtime => requestedOvertime s.device
      | _ => none
  | _ => none

/-- The timeout thread starts with a product that fits, and whatever is set later is what it has. -/
def keeps (s : State) (l : Label) : Prop :=
  (l = .startOvertime → s.overtime = none → ∀ m ∈ s.setTo, 0 ≤ m.toInt * 60 ∧ m.toInt * 60 < 2 ^ 32) ∧
    ∀ overtime ∈ s.overtime, ∀ m ∈ written s l, (overtime.toNat : Int) = m.toInt * 60

/-- A step resets the board, starts the timeout thread, or leaves its variable alone. -/
theorem step_cases (nullString : NullString) (s : State) (l : Label) :
    (l ≠ .startOvertime ∧ written s l = none ∧ (step nullString s l).overtime = none ∧
        (step nullString s l).setTo = none) ∨
      (l = .startOvertime ∧ s.overtime = none ∧
        (step nullString s l).overtime = some ((s.device.config 2).parameter * 60#32) ∧
        (step nullString s l).setTo = s.setTo) ∨
      ((step nullString s l).overtime = s.overtime ∧ (step nullString s l).setTo = (written s l).or s.setTo ∧
        (l = .startOvertime → s.overtime ≠ none)) := by
  cases l with
  | startOvertime =>
    cases h : s.overtime with
    | none => simp [step, h]
    | some overtime => simp [step, h, written]
  | tick => simp [step, written]
  | sweep => cases h : s.overtime <;> simp [step, h, written]
  | write a v => simp [step, written]
  | save nullInt tail =>
    simp only [step, written]
    cases s.hung with
    | true => simp
    | false =>
      simp only [Bool.false_eq_true, if_false, saveStep]
      cases s.point with
      | load => simp
      | modbus => simp
      | overtime => simp
      | deviceId => simp
      | create => cases saveBlock nullString s.isConfigUpdata s.device <;> simp
      | reset => cases flag s.device.regs 15 <;> simp [powerUp]

section Parameter

variable (s : Device)

theorem loadBlock_overtime (nullInt : U32) (tail : Bytes) :
    ((loadBlock nullInt tail s).config 2).parameter = (loadedOvertime tail s).getD (s.config 2).parameter := by
  simp only [loadBlock, loadedOvertime]
  split
  · rfl
  · rename_i hno
    rw [getJsonFile_eq_assign, assign_of_not_mem _ _ _ hno]
    rfl

theorem modbusBlock_overtime : ((modbusBlock s).config 2).parameter = (s.config 2).parameter := by
  rw [modbusBlock_config]
  split
  · exact hostSetModbusParameter_overtime s.regs s.config
  · rfl

theorem overtimeBlock_overtime :
    ((overtimeBlock s).config 2).parameter = (requestedOvertime s).getD (s.config 2).parameter := by
  unfold overtimeBlock requestedOvertime
  split
  · exact setParameter_self s.config 2 _
  · rfl

end Parameter

/-- The parameter still has the value set last. -/
def Current (s : State) : Prop := ∀ m ∈ s.setTo, (s.device.config 2).parameter = m

theorem current_set (s t : State) (w : Option U32) (hc : Current s) (hset : t.setTo = w.or s.setTo)
    (hparameter : (t.device.config 2).parameter = w.getD (s.device.config 2).parameter) : Current t := by
  intro m hm
  rw [hset] at hm
  rw [hparameter]
  cases w with
  | none => exact hc m hm
  | some v => simpa using hm

theorem current_saveStep (nullString : NullString) (nullInt : U32) (tail : Bytes) (s : State) (hc : Current s) :
    Current (saveStep nullString nullInt tail s) := by
  unfold saveStep
  cases s.point with
  | load => exact current_set s _ _ hc rfl (loadBlock_overtime s.device nullInt tail)
  | modbus => exact current_set s _ none hc rfl (modbusBlock_overtime s.device)
  | overtime => exact current_set s _ _ hc rfl (overtimeBlock_overtime s.device)
  | deviceId =>
    refine current_set s _ none hc rfl ?_
    rw [deviceIdBlock_config]
    rfl
  | create =>
    cases h : saveBlock nullString s.isConfigUpdata s.device with
    | none => exact hc
    | some device =>
      refine current_set s _ none hc rfl ?_
      rw [saveBlock_config nullString s.isConfigUpdata s.device device h]
      rfl
  | reset =>
    simp only
    split
    · intro m hm
      cases hm
    · exact hc

theorem current_step (nullString : NullString) (s : State) (l : Label) (hc : Current s) :
    Current (step nullString s l) := by
  cases l with
  | startOvertime =>
    simp only [step]
    split <;> exact hc
  | tick => exact hc
  | sweep =>
    cases h : s.overtime with
    | none => simpa [step, h] using hc
    | some overtime => simpa [step, h, Current] using hc
  | write a v => exact hc
  | save nullInt tail =>
    simp only [step]
    split
    · exact hc
    · exact current_saveStep nullString nullInt tail s hc

theorem toNat_minutes (m : U32) :
    (((m * 60#32).toNat : Int) = m.toInt * 60) ↔ 0 ≤ m.toInt * 60 ∧ m.toInt * 60 < 2 ^ 32 := by
  have hm := m.isLt
  have hmul : (m * 60#32).toNat = m.toNat * 60 % 2 ^ 32 := BitVec.toNat_mul m 60#32
  rw [hmul, BitVec.toInt_eq_toNat_cond]
  split <;> omega

theorem inForce_step (nullString : NullString) (s : State) (l : Label) (hc : Current s) (hf : InForce s)
    (hk : keeps s l) : InForce (step nullString s l) := by
  intro overtime ho m hm
  rcases step_cases nullString s l with ⟨-, -, hnone, -⟩ | ⟨hl, hs, hstart, hset⟩ | ⟨hsame, hset, -⟩
  · rw [hnone] at ho
    cases ho
  · rw [hset] at hm
    rw [hstart, hc m hm] at ho
    cases ho
    exact (toNat_minutes m).mpr (hk.1 hl hs m hm)
  · rw [hsame] at ho
    rw [hset] at hm
    cases hw : written s l with
    | none => exact hf overtime ho m (by simpa [hw] using hm)
    | some v => exact hk.2 overtime ho m (by simpa [hw] using hm)

/-- The step that breaks the condition leaves a stale timeout behind. -/
theorem keeps_of_inForce (nullString : NullString) (s : State) (l : Label) (hc : Current s)
    (hf : InForce (step nullString s l)) : keeps s l := by
  rcases step_cases nullString s l with ⟨hl, hnone, -, -⟩ | ⟨hl, hs, hstart, hset⟩ | ⟨hsame, hset, hrun⟩
  · exact ⟨fun h => absurd h hl, by simp [hnone]⟩
  · refine ⟨?_, by simp [hs]⟩
    intro _ _ m hm
    have h := hf _ hstart m (by rw [hset]; exact hm)
    rw [hc m hm] at h
    exact (toNat_minutes m).mp h
  · refine ⟨fun hl hs => absurd hs (hrun hl), ?_⟩
    intro overtime ho m hm
    exact hf overtime (by rw [hsame]; exact ho) m (by rw [hset, hm]; rfl)

/-- What being in force means for the nodes: a sweep clears those that are as old as the minutes set last. -/
theorem sweep_in_force (nullString : NullString) (s : State) (overtime m : U32) (hf : InForce s)
    (ho : s.overtime = some overtime) (hm : s.setTo = some m) (i : Nat) (hi : i < nodeCount) (a : Nat)
    (ha : a ∈ nodeRegisters i) :
    (step nullString s .sweep).device.regs a =
      if receiveTimeAt s.device.regs i ≠ 0#32 ∧
          m.toInt * 60 ≤ (s.timer - receiveTimeAt s.device.regs i).toNat then 0#16
      else s.device.regs a := by
  have hequal := hf overtime ho m hm
  have hjudge : Overtime.timedOut s.timer overtime s.device.regs i = true ↔
      receiveTimeAt s.device.regs i ≠ 0#32 ∧
        m.toInt * 60 ≤ (s.timer - receiveTimeAt s.device.regs i).toNat := by
    rw [Overtime.timedOut_iff, ← hequal, BitVec.le_def, Int.ofNat_le]
  simp only [step, ho]
  rw [Overtime.sweep_node s.timer overtime s.device.regs i hi a ha]
  simp only [hjudge]

/-- A sweep that starts anywhere in a run judges against the minutes set last, exactly if no step
of the run sets minutes that the running timeout thread does not have. -/
theorem overtime_in_force_iff (nullString : NullString) (json csv : Option Bytes) (labels : List Label) :
    (∀ reached, reached <+: labels → InForce (run (step nullString) (powerUp json csv) reached)) ↔
      Allowed (step nullString) keeps (powerUp json csv) labels := by
  have hstep (s : State) (l : Label) (hs : Current s ∧ InForce s) (hk : keeps s l) :
      Current (step nullString s l) ∧ InForce (step nullString s l) :=
    ⟨current_step nullString s l hs.1, inForce_step nullString s l hs.1 hs.2 hk⟩
  have hstart : Current (powerUp json csv) ∧ InForce (powerUp json csv) :=
    ⟨fun m hm => (nomatch hm), fun overtime ho => (nomatch ho)⟩
  exact prefixes_iff_allowed hstep (fun s hs => hs.2) (fun s l hs => keeps_of_inForce nullString s l hs.1)
    (powerUp json csv) labels hstart

/-- The timeout thread starts first, no file, and the host asks for five minutes. -/
theorem default_stays_in_force :
    ¬InForce (run (step emptyNull) (powerUp none none)
      [.startOvertime, .save 0#32 [], .write 1 5#16, .write configFlagAddress 2#16,
        .save 0#32 [], .save 0#32 []]) := by
  intro h
  have hequal := h 60#32 (by decide) 5#32 (by decide)
  revert hequal
  decide

end DataReceiveRelay.NodeTimeout
