import DataReceiveRelay.SaveConfig

/-!
# The slave address at boot

The address travels from register 0 into the configuration, into the file,
through a reset and into `eMBInit`, which checks it only then. The poll thread
may read the configuration before or after the save thread has loaded the file.
A save that never returns ends the run.
-/

namespace DataReceiveRelay.SlaveAddress

open Words Runs Registers Config SaveConfig

inductive ErrorCode where
  | enoerr | einval
  deriving DecidableEq, Repr

inductive SlaveState where
  | notInitialized | disabled | enabled
  deriving DecidableEq, Repr

/-- `eMBInit` in RTU mode on a working port. -/
def eMBInit (ucSlaveAddress : U8) : ErrorCode × SlaveState :=
  if ucSlaveAddress = 0#8 ∨ ucSlaveAddress < 1#8 ∨ ucSlaveAddress > 247#8 then (.einval, .notInitialized)
  else (.enoerr, .disabled)

def eMBEnable : SlaveState → SlaveState
  | .disabled => .enabled
  | state => state

/-- The state `eMBPoll` finds for the rest of the run; the result of `eMBInit` is not looked at. -/
def pollState (ucSlaveAddress : U8) : SlaveState := eMBEnable (eMBInit ucSlaveAddress).2

/-- The `int` parameter as the poll thread passes it on. -/
def slaveAddress (config : ConfigTable) : U8 := (config 1).parameter.setWidth 8

/-- What the next boot may pass to `eMBInit`: the default or the loaded address. -/
def bootAddresses (json : Option Bytes) (tail : Bytes) : List U8 :=
  [slaveAddress defaultConfig, slaveAddress (getJsonFile json tail defaultConfig).2]

/-- The registers a host configures the device with. -/
inductive HostRegister where
  | modbus | overtime | flags
  deriving DecidableEq, Repr

def HostRegister.address : HostRegister → Nat
  | .modbus => 0
  | .overtime => 1
  | .flags => configFlagAddress

/-- Turns of the save thread and resets carry what a boot finds in memory. -/
inductive Label where
  | write (r : HostRegister) (v : U16)
  | iterate (nullInt : U32) (tail : Bytes)
  | reboot (nullInt : U32) (tail : Bytes)

def iterateStep (nullString : NullString) (nullInt : U32) (tail : Bytes) (s : Device) : Option Device :=
  (iteration nullString s).map fun (s, reset) => if reset then startUp nullInt tail s.json s.csv else s

def step (nullString : NullString) (s : Option Device) (l : Label) : Option Device :=
  s.bind fun s =>
    match l with
    | .write r v => some { s with regs := Function.update s.regs r.address v }
    | .iterate nullInt tail => iterateStep nullString nullInt tail s
    | .reboot nullInt tail => some (startUp nullInt tail s.json s.csv)

/-- The first boot, without files. -/
def start : Option Device := some (startUp 0#32 [] none none)

/-- Every address the next boot can pass is accepted and the slave answers. -/
def Reachable (s : Device) : Prop :=
  ∀ tail, ∀ a ∈ bootAddresses s.json tail, 1 ≤ a.toNat ∧ a.toNat ≤ 247 ∧ (eMBInit a).1 ≠ .einval ∧
    pollState a = .enabled

/-- A turn that takes over an address and comes back takes over a valid one. -/
def validAddress (nullString : NullString) (s : Option Device) (l : Label) : Prop :=
  ∀ d ∈ s, ∀ nullInt tail, l = .iterate nullInt tail → flag d.regs 0 = true →
    iteration nullString d ≠ none → 1 ≤ (d.regs 0).toNat % 256 ∧ (d.regs 0).toNat % 256 ≤ 247

theorem slave_answers (a : U8) (hlo : 1 ≤ a.toNat) (hhi : a.toNat ≤ 247) :
    (eMBInit a).1 ≠ .einval ∧ pollState a = .enabled := by
  have hno : ¬(a = 0#8 ∨ a < 1#8 ∨ a > 247#8) := by
    simp only [BitVec.lt_def, gt_iff_lt, ← BitVec.toNat_inj, BitVec.toNat_ofNat]
    omega
  have hinit : eMBInit a = (.enoerr, .disabled) := if_neg hno
  rw [pollState, hinit]
  exact ⟨by decide, rfl⟩

/-- The file is one the device wrote itself, from a table with short names. -/
def OwnFile (nullString : NullString) (json : Option Bytes) : Prop :=
  ∀ file ∈ json, ∃ config, createJsonFile nullString config = some file ∧ ShortNames config

theorem loaded_own (nullString : NullString) (config : ConfigTable) (file tail : Bytes)
    (h : createJsonFile nullString config = some file) (hs : ShortNames config) :
    ((getJsonFile (some file) tail defaultConfig).2 1).parameter = (config 1).parameter := by
  rw [getJsonFile_createJsonFile nullString config defaultConfig file tail hs h]
  rfl

theorem shortNames_loaded (nullString : NullString) (json : Option Bytes) (tail : Bytes)
    (h : OwnFile nullString json) : ShortNames (getJsonFile json tail defaultConfig).2 := by
  cases json with
  | none => exact shortNames_of_defaultNames defaultConfig fun _ _ => rfl
  | some file =>
    obtain ⟨config, hfile, hs⟩ := h file rfl
    rw [getJsonFile_createJsonFile nullString config defaultConfig file tail hs hfile]
    intro i hi name hname
    simp [hi, reloaded] at hname

theorem beforeSave_names (s : Device) (h : ShortNames s.config) : ShortNames (beforeSave s).config := by
  intro i hi name hn
  rw [beforeSave_name] at hn
  exact h i hi name hn

/-- The address after the configuration blocks. -/
theorem beforeSave_address (s : Device) :
    ((beforeSave s).config 1).parameter =
      if flag s.regs 0 then (s.regs 0 &&& 0x00FF#16).setWidth 32 else (s.config 1).parameter := by
  rw [beforeSave_config]
  split <;> split <;>
    simp [hostSetNodeOvertime, setParameter_other _ 2 1 _ (by decide), hostSetModbusParameter_address]

/-- What a turn that comes back leaves in the table and in the file. -/
theorem iterateStep_cases (nullString : NullString) (nullInt : U32) (tail : Bytes) (s t : Device)
    (h : iterateStep nullString nullInt tail s = some t) :
    (t.config = (beforeSave s).config ∨ t.config = (getJsonFile t.json tail defaultConfig).2) ∧
    (isConfigUpdata s = true ∧ createJsonFile nullString (beforeSave s).config = t.json ∧ t.json ≠ none ∨
      isConfigUpdata s = false ∧ t.json = s.json) := by
  obtain ⟨⟨u, reset⟩, hturn, rfl⟩ := Option.map_eq_some_iff.mp h
  obtain ⟨m, hsave, hend⟩ := Option.map_eq_some_iff.mp hturn
  have hm : m.config = (beforeSave s).config ∧
      (isConfigUpdata s = true ∧ createJsonFile nullString (beforeSave s).config = m.json ∧ m.json ≠ none ∨
        isConfigUpdata s = false ∧ m.json = s.json) := by
    unfold saveBlock at hsave
    cases hupdated : isConfigUpdata s with
    | true =>
      rw [hupdated, if_pos rfl] at hsave
      obtain ⟨file, hfile, rfl⟩ := Option.map_eq_some_iff.mp hsave
      exact ⟨rfl, Or.inl ⟨rfl, hfile, by simp⟩⟩
    | false =>
      simp only [hupdated, Bool.false_eq_true, if_false, Option.some.injEq] at hsave
      subst hsave
      exact ⟨rfl, Or.inr ⟨rfl, beforeSave_json s⟩⟩
  split at hend
  · cases hend
    exact ⟨Or.inr rfl, hm.2⟩
  · cases hend
    exact ⟨Or.inl hm.1, hm.2⟩

/-- Names and file are the device's own, whatever the host does. -/
structure Own (nullString : NullString) (s : Device) : Prop where
  names : ShortNames s.config
  file : OwnFile nullString s.json

theorem own_startUp (nullString : NullString) (nullInt : U32) (tail : Bytes) (json csv : Option Bytes)
    (h : OwnFile nullString json) : Own nullString (startUp nullInt tail json csv) :=
  ⟨shortNames_loaded nullString json tail h, h⟩

theorem own_iterateStep (nullString : NullString) (nullInt : U32) (tail : Bytes) (s t : Device)
    (hs : Own nullString s) (h : iterateStep nullString nullInt tail s = some t) : Own nullString t := by
  obtain ⟨hconfig, hjson⟩ := iterateStep_cases nullString nullInt tail s t h
  have hnames := beforeSave_names s hs.names
  have hfile : OwnFile nullString t.json := by
    rcases hjson with ⟨-, hcreate, -⟩ | ⟨-, hsame⟩
    · intro file hmem
      exact ⟨_, hcreate.trans hmem, hnames⟩
    · rw [hsame]
      exact hs.file
  refine ⟨?_, hfile⟩
  rcases hconfig with hsame | hloaded
  · rwa [hsame]
  · rw [hloaded]
    exact shortNames_loaded nullString t.json tail hfile

/-- A property of devices, of every device the run may be in. -/
def Holds (P : Device → Prop) (s : Option Device) : Prop := ∀ d ∈ s, P d

theorem own_step (nullString : NullString) (s : Option Device) (l : Label) (hs : Holds (Own nullString) s) :
    Holds (Own nullString) (step nullString s l) := by
  cases s with
  | none => exact fun d hd => by cases hd
  | some s =>
    have hown := hs s rfl
    intro d hd
    cases l with
    | write r v =>
      cases hd
      exact ⟨hown.names, hown.file⟩
    | iterate nullInt tail => exact own_iterateStep nullString nullInt tail s d hown hd
    | reboot nullInt tail =>
      cases hd
      exact own_startUp nullString nullInt tail s.json s.csv hown.file

theorem own_start (nullString : NullString) : Holds (Own nullString) start := by
  intro d hd
  cases hd
  exact own_startUp nullString 0#32 [] none none fun file hfile => by cases hfile

/-- The address in the table and the one any boot would load. -/
structure Addressed (s : Device) : Prop where
  table : 1 ≤ (s.config 1).parameter.toNat ∧ (s.config 1).parameter.toNat ≤ 247
  loaded : ∀ tail, 1 ≤ ((getJsonFile s.json tail defaultConfig).2 1).parameter.toNat ∧
    ((getJsonFile s.json tail defaultConfig).2 1).parameter.toNat ≤ 247

theorem default_address : 1 ≤ (defaultConfig 1).parameter.toNat ∧ (defaultConfig 1).parameter.toNat ≤ 247 := by
  decide

theorem reachable_of_addressed (s : Device) (h : Addressed s) : Reachable s := by
  intro tail a ha
  have hrange : 1 ≤ a.toNat ∧ a.toNat ≤ 247 := by
    simp only [bootAddresses, List.mem_cons, List.not_mem_nil, or_false] at ha
    rcases ha with rfl | rfl
    · decide
    · have hl := h.loaded tail
      simp only [slaveAddress, BitVec.toNat_setWidth]
      omega
  exact ⟨hrange.1, hrange.2, slave_answers a hrange.1 hrange.2⟩

theorem addressed_startUp (s : Device) (nullInt : U32) (tail : Bytes) (h : Addressed s) :
    Addressed (startUp nullInt tail s.json s.csv) :=
  ⟨h.loaded tail, h.loaded⟩

theorem addressed_iterateStep (nullString : NullString) (nullInt : U32) (tail : Bytes) (s t : Device)
    (ho : Own nullString s) (hs : Addressed s) (h : iterateStep nullString nullInt tail s = some t)
    (hok : flag s.regs 0 = true → 1 ≤ (s.regs 0).toNat % 256 ∧ (s.regs 0).toNat % 256 ≤ 247) : Addressed t := by
  obtain ⟨hconfig, hjson⟩ := iterateStep_cases nullString nullInt tail s t h
  have hnames := beforeSave_names s ho.names
  have hbefore :
      1 ≤ ((beforeSave s).config 1).parameter.toNat ∧ ((beforeSave s).config 1).parameter.toNat ≤ 247 := by
    rw [beforeSave_address]
    cases hflag : flag s.regs 0 with
    | true =>
      rw [if_pos rfl, lowByte_toNat]
      exact hok hflag
    | false => exact hs.table
  have hloaded : ∀ tail, 1 ≤ ((getJsonFile t.json tail defaultConfig).2 1).parameter.toNat ∧
      ((getJsonFile t.json tail defaultConfig).2 1).parameter.toNat ≤ 247 := by
    intro tail
    rcases hjson with ⟨-, hcreate, hsome⟩ | ⟨-, hsame⟩
    · obtain ⟨file, hfile⟩ := Option.ne_none_iff_exists'.mp hsome
      rw [hfile] at hcreate ⊢
      rw [loaded_own nullString _ file tail hcreate hnames]
      exact hbefore
    · rw [hsame]
      exact hs.loaded tail
  refine ⟨?_, hloaded⟩
  rcases hconfig with hsame | hboot
  · rwa [hsame]
  · rw [hboot]
    exact hloaded tail

theorem addressed_step (nullString : NullString) (s : Option Device) (l : Label)
    (hs : Holds (fun d => Own nullString d ∧ Addressed d) s) (hok : validAddress nullString s l) :
    Holds (fun d => Own nullString d ∧ Addressed d) (step nullString s l) := by
  have hown := own_step nullString s l fun d hd => (hs d hd).1
  intro t ht
  refine ⟨hown t ht, ?_⟩
  cases s with
  | none => cases ht
  | some s =>
    obtain ⟨ho, ha⟩ := hs s rfl
    cases l with
    | write r v =>
      cases ht
      exact ⟨ha.table, ha.loaded⟩
    | iterate nullInt tail =>
      refine addressed_iterateStep nullString nullInt tail s t ho ha ht fun hflag => ?_
      refine hok s rfl nullInt tail rfl hflag fun hnone => ?_
      simp [step, iterateStep, hnone] at ht
    | reboot nullInt tail =>
      cases ht
      exact addressed_startUp s nullInt tail ha

/-- A saved address is what the next boot passes on. -/
theorem validAddress_of_reachable (nullString : NullString) (s : Device) (l : Label) (ho : Own nullString s)
    (h : Holds Reachable (step nullString (some s) l)) : validAddress nullString (some s) l := by
  rintro d hd nullInt tail rfl hflag hreturns
  cases hd
  obtain ⟨⟨u, reset⟩, hturn⟩ := Option.ne_none_iff_exists'.mp hreturns
  obtain ⟨t, ht⟩ : ∃ t, iterateStep nullString nullInt tail s = some t := by simp [iterateStep, hturn]
  obtain ⟨-, hjson⟩ := iterateStep_cases nullString nullInt tail s t ht
  have hupdated : isConfigUpdata s = true := by simp [isConfigUpdata, hflag]
  rcases hjson with ⟨-, hcreate, hsome⟩ | ⟨hnot, -⟩
  · obtain ⟨file, hfile⟩ := Option.ne_none_iff_exists'.mp hsome
    have hboot := h t ht [] (slaveAddress (getJsonFile t.json [] defaultConfig).2) (by simp [bootAddresses])
    rw [hfile] at hcreate
    rw [hfile, slaveAddress, loaded_own nullString _ file [] hcreate (beforeSave_names s ho.names), beforeSave_address,
      if_pos hflag, BitVec.toNat_setWidth, lowByte_toNat] at hboot
    omega
  · rw [hupdated] at hnot
    cases hnot

/-- Exactly when every address taken over is valid, every boot after every step of the run passes
an address the slave starts with. -/
theorem boot_address_valid_iff (nullString : NullString) (labels : List Label) :
    (∀ reached, reached <+: labels → Holds Reachable (run (step nullString) start reached)) ↔
      Allowed (step nullString) (validAddress nullString) start labels := by
  have hstart : Holds (fun d => Own nullString d ∧ Addressed d) start := by
    intro d hd
    refine ⟨own_start nullString d hd, ?_⟩
    cases hd
    exact ⟨default_address, fun _ => default_address⟩
  have hreach (s : Option Device) (hs : Holds (fun d => Own nullString d ∧ Addressed d) s) : Holds Reachable s :=
    fun d hd => reachable_of_addressed d (hs d hd).2
  have hback (s : Option Device) (l : Label) (hs : Holds (fun d => Own nullString d ∧ Addressed d) s)
      (h : Holds Reachable (step nullString s l)) : validAddress nullString s l := by
    cases s with
    | none => exact fun d hd => by cases hd
    | some s => exact validAddress_of_reachable nullString s l (hs s rfl).1 h
  exact prefixes_iff_allowed (addressed_step nullString) hreach hback start labels hstart

/-- Address 0 in register 0, bit 0 of the flags, one turn of the save thread. -/
theorem address_zero_locks_out :
    ¬Holds Reachable (run (step emptyNull) start
      [.write .modbus 0x0300#16, .write .flags 0x0001#16, .iterate 0#32 []]) := by
  intro h
  generalize hs : run (step emptyNull) start [.write .modbus 0x0300#16, .write .flags 0x0001#16] = s
  obtain ⟨d, rfl, hflag, hregister, hnames⟩ : ∃ d, s = some d ∧ flag d.regs 0 = true ∧ d.regs 0 = 0x0300#16 ∧
      d.config = defaultConfig := by
    rw [← hs]
    exact ⟨_, rfl, by decide, by decide, rfl⟩
  have hown := invariant (own_step emptyNull) start [.write .modbus 0x0300#16, .write .flags 0x0001#16]
    (own_start emptyNull)
  rw [hs] at hown
  have hvalid := validAddress_of_reachable emptyNull d (.iterate 0#32 []) (hown d rfl) (by rw [← hs]; exact h)
  have hreturns : iteration emptyNull d ≠ none := by
    have hdefault : DefaultNames (beforeSave d).config := fun i _ => by rw [beforeSave_name, hnames]
    obtain ⟨file, hfile⟩ := createJsonFile_defaultNames emptyNull (beforeSave d).config hdefault
    have hupdated : isConfigUpdata d = true := by simp [isConfigUpdata, hflag]
    simp [iteration, saveBlock, hupdated, hfile]
  have hrange := hvalid d rfl 0#32 [] rfl hflag hreturns
  rw [hregister] at hrange
  revert hrange
  decide

end DataReceiveRelay.SlaveAddress
