import DataReceiveRelay.SaveConfig

/-!
# Names of the configuration entries

`Get_JsonFile` replaces an entry by a struct in which only the numbers are set,
so an entry that has been loaded has no name. Nothing looks at it until the
table is saved again. `names` lists what `ConfigFile_StructToJson` was applied
to, `files` every file written. A print that never returns ends the run.
-/

namespace DataReceiveRelay.EntryNames

open Words Runs Registers Json Config SaveConfig

structure State where
  config : ConfigTable
  json : Option Bytes
  names : List (Option CString)
  files : List Bytes
  hung : Bool

inductive Label where
  | boot (tail : Bytes)
  | modbus (regs : Table)
  | overtime (regs : Table)
  | save

inductive Kind where
  | boot | update | save
  deriving DecidableEq, Repr

def Label.kind : Label → Kind
  | .boot _ => .boot
  | .modbus _ => .update
  | .overtime _ => .update
  | .save => .save

/-- The names of the entries converted in one save, up to one whose print does not return. -/
def convertedNames (nullString : NullString) (config : ConfigTable) : Nat → Nat → List (Option CString)
  | 0, _ => []
  | k + 1, i =>
    (config i).name ::
      match printEntry nullString (config i) with
      | none => []
      | some _ => convertedNames nullString config k (i + 1)

def saveStep (nullString : NullString) (s : State) : State :=
  let names := s.names ++ convertedNames nullString s.config getConfigFileLength 0
  match createJsonFile nullString s.config with
  | none => { s with names := names, hung := true }
  | some file => { s with json := some file, names := names, files := s.files ++ [file] }

/-- A boot starts from the program image and loads the file. -/
def step (nullString : NullString) (s : State) (l : Label) : State :=
  if s.hung then s
  else
    match l with
    | .boot tail => { s with config := (getJsonFile s.json tail defaultConfig).2 }
    | .modbus regs => { s with config := hostSetModbusParameter regs s.config }
    | .overtime regs => { s with config := hostSetNodeOvertime regs s.config }
    | .save => saveStep nullString s

def start : State := ⟨defaultConfig, none, [], [], false⟩

/-- The name a file carries for entry `k`. -/
def storedName (file : Bytes) (k : Nat) : Option Bytes := do
  let json ← parse file
  let array ← json.child[0]?
  let entry ← array.child[k]?
  let name ← getObjectItem entry nameKey
  name.valuestring

/-- No conversion of a nameless entry, and all files carry the names of the first. -/
def Kept (s : State) : Prop :=
  (∀ name ∈ s.names, name ≠ none) ∧
    ∀ first ∈ s.files.head?, ∀ file ∈ s.files, ∀ k < getConfigFileLength, storedName file k = storedName first k

theorem storedName_created (nullString : NullString) (config : ConfigTable) (file : Bytes)
    (h : createJsonFile nullString config = some file) (k : Nat) (hk : k < getConfigFileLength) :
    storedName file k = some ((config k).name.getD nullString.str).val := by
  have hparse := parse_createJsonFile nullString config file [] h
  rw [List.append_nil] at hparse
  have hname : getObjectItem (entryItem nullString (config k)) nameKey =
      some { type := .string, valuestring := some ((config k).name.getD nullString.str).val,
             string := some nameKey } := by
    have hself : strcasecmp nameKey nameKey = true := by decide
    simp [getObjectItem, entryItem, memberItems, entryMembers, hself]
  simp [storedName, hparse, fileItem, hk, hname]

/-- Written with the names of the program image. -/
def Original (nullString : NullString) (file : Bytes) : Prop :=
  ∃ config, createJsonFile nullString config = some file ∧ DefaultNames config

theorem original_names (nullString : NullString) (file file' : Bytes) (h : Original nullString file)
    (h' : Original nullString file') (k : Nat) (hk : k < getConfigFileLength) :
    storedName file k = storedName file' k := by
  obtain ⟨config, hfile, hnames⟩ := h
  obtain ⟨config', hfile', hnames'⟩ := h'
  rw [storedName_created nullString config file hfile k hk, storedName_created nullString config' file' hfile' k hk,
    hnames k hk, hnames' k hk]

/-- What holds as long as no nameless entry has been converted. -/
structure Clean (nullString : NullString) (s : State) : Prop where
  running : s.hung = false
  named : ∀ name ∈ s.names, name ≠ none
  files : ∀ file ∈ s.files, Original nullString file

theorem kept_of_clean (nullString : NullString) (s : State) (h : Clean nullString s) : Kept s := by
  refine ⟨h.named, ?_⟩
  intro first hfirst file hfile k hk
  exact original_names nullString file first (h.files file hfile) (h.files first (List.mem_of_mem_head? hfirst)) k hk

def Nameless (config : ConfigTable) : Prop := ∀ i < getConfigFileLength, (config i).name = none

/-- The four stages of a run: no save yet, a save without a boot behind it, a boot behind a save,
and a save behind that. -/
inductive Stage (nullString : NullString) (history : List Kind) (s : State) : Prop where
  | fresh (h : ¬[Kind.save].Sublist history) (hc : Clean nullString s) (hj : s.json = none)
      (hn : DefaultNames s.config)
  | saved (h : [Kind.save].Sublist history) (h' : ¬[Kind.save, .boot].Sublist history) (hc : Clean nullString s)
      (hj : ∃ file ∈ s.files, s.json = some file) (hn : DefaultNames s.config)
  | reloaded (h : [Kind.save, .boot].Sublist history) (h' : ¬[Kind.save, .boot, .save].Sublist history)
      (hc : Clean nullString s) (hj : ∃ file ∈ s.files, s.json = some file) (hn : Nameless s.config)
  | lost (h : [Kind.save, .boot, .save].Sublist history) (hl : none ∈ s.names)

section Patterns

variable (history : List Kind) (k : Kind)

theorem save_boot_snoc : [Kind.save, .boot].Sublist (history ++ [k]) ↔
    [Kind.save, .boot].Sublist history ∨ Kind.boot = k ∧ [Kind.save].Sublist history :=
  sublist_snoc [Kind.save] history Kind.boot k

theorem save_boot_save_snoc : [Kind.save, .boot, .save].Sublist (history ++ [k]) ↔
    [Kind.save, .boot, .save].Sublist history ∨ Kind.save = k ∧ [Kind.save, .boot].Sublist history :=
  sublist_snoc [Kind.save, .boot] history Kind.save k

variable {history}

theorem not_save_boot (h : ¬[Kind.save].Sublist history) : ¬[Kind.save, .boot].Sublist history := by
  have hpattern : [Kind.save].Sublist [Kind.save, .boot] := by decide
  exact fun hp => h (hpattern.trans hp)

theorem not_save_boot_save (h : ¬[Kind.save, .boot].Sublist history) :
    ¬[Kind.save, .boot, .save].Sublist history := by
  have hpattern : [Kind.save, .boot].Sublist [Kind.save, .boot, .save] := by decide
  exact fun hp => h (hpattern.trans hp)

end Patterns

theorem convertedNames_default (nullString : NullString) (config : ConfigTable) (h : DefaultNames config) (k i : Nat)
    (hk : i + k ≤ getConfigFileLength) : ∀ name ∈ convertedNames nullString config k i, name ≠ none := by
  induction k generalizing i with
  | zero => simp [convertedNames]
  | succ k ih =>
    obtain ⟨out, hout⟩ := printEntry_defaultNames nullString config h i (by omega)
    intro name hname
    rw [convertedNames, hout, List.mem_cons] at hname
    rcases hname with rfl | hname
    · rw [h i (by omega)]
      match i with
      | 0 => simp [defaultConfig]
      | 1 => simp [defaultConfig]
      | 2 => simp [defaultConfig]
      | i + 3 => simp [getConfigFileLength] at hk; omega
    · exact ih (i + 1) (by omega) name hname

/-- A save under the original names adds one more original file. -/
theorem saveStep_default (nullString : NullString) (s : State) (hc : Clean nullString s)
    (hn : DefaultNames s.config) :
    ∃ file, (saveStep nullString s).json = some file ∧ file ∈ (saveStep nullString s).files ∧
      (saveStep nullString s).config = s.config ∧ Clean nullString (saveStep nullString s) := by
  obtain ⟨file, hfile⟩ := createJsonFile_defaultNames nullString s.config hn
  have hconverted := convertedNames_default nullString s.config hn getConfigFileLength 0 (by omega)
  refine ⟨file, by simp [saveStep, hfile], by simp [saveStep, hfile], by simp [saveStep, hfile], ?_⟩
  simp only [saveStep, hfile]
  refine ⟨hc.running, ?_, ?_⟩
  · intro name hname
    cases List.mem_append.mp hname with
    | inl hold => exact hc.named name hold
    | inr hnew => exact hconverted name hnew
  · intro f hf
    cases List.mem_append.mp hf with
    | inl hold => exact hc.files f hold
    | inr hnew =>
      obtain rfl : f = file := by simpa using hnew
      exact ⟨s.config, hfile, hn⟩

/-- Loading an original file takes the names away. -/
theorem nameless_loaded (nullString : NullString) (file tail : Bytes) (h : Original nullString file) :
    Nameless (getJsonFile (some file) tail defaultConfig).2 := by
  obtain ⟨config, hfile, hnames⟩ := h
  rw [getJsonFile_createJsonFile nullString config defaultConfig file tail
    (shortNames_of_defaultNames config hnames) hfile]
  intro i hi
  simp [hi, reloaded]

theorem saveStep_nameless (nullString : NullString) (s : State) (hn : Nameless s.config) :
    none ∈ (saveStep nullString s).names := by
  have hfirst : none ∈ convertedNames nullString s.config getConfigFileLength 0 := by
    rw [getConfigFileLength, convertedNames, hn 0 (by decide)]
    exact List.mem_cons_self
  unfold saveStep
  split <;> exact List.mem_append_right _ hfirst

theorem names_step (nullString : NullString) (s : State) (l : Label) (name : Option CString) (h : name ∈ s.names) :
    name ∈ (step nullString s l).names := by
  unfold step
  split
  · exact h
  · cases l with
    | boot tail => exact h
    | modbus regs => exact h
    | overtime regs => exact h
    | save =>
      unfold saveStep
      simp only
      split <;> exact List.mem_append_left _ h

/-- A host request keeps the stage of the run. -/
theorem stage_update (nullString : NullString) (history : List Kind) (s : State) (config : ConfigTable)
    (hnames : ∀ i, (config i).name = (s.config i).name) (h : Stage nullString history s) :
    Stage nullString (history ++ [.update]) { s with config := config } := by
  have hdefault (hn : DefaultNames s.config) : DefaultNames config := fun i hi => (hnames i).trans (hn i hi)
  have hnameless (hn : Nameless s.config) : Nameless config := fun i hi => (hnames i).trans (hn i hi)
  cases h with
  | fresh h hc hj hn =>
    exact .fresh (by simpa using h) ⟨hc.running, hc.named, hc.files⟩ hj (hdefault hn)
  | saved h h' hc hj hn =>
    exact .saved (by simpa using h) (by simpa [save_boot_snoc] using h')
      ⟨hc.running, hc.named, hc.files⟩ hj (hdefault hn)
  | reloaded h h' hc hj hn =>
    exact .reloaded (by simpa [save_boot_snoc] using h) (by simpa [save_boot_save_snoc] using h')
      ⟨hc.running, hc.named, hc.files⟩ hj (hnameless hn)
  | lost h hl => exact .lost (by simpa [save_boot_save_snoc] using h) hl

/-- A boot after a save brings the nameless entries in. -/
theorem stage_boot (nullString : NullString) (history : List Kind) (s : State) (tail : Bytes)
    (h : Stage nullString history s) :
    Stage nullString (history ++ [.boot]) { s with config := (getJsonFile s.json tail defaultConfig).2 } := by
  cases h with
  | fresh h hc hj hn =>
    have hdefault : DefaultNames (getJsonFile s.json tail defaultConfig).2 := by
      rw [hj]
      exact fun i hi => rfl
    exact .fresh (by simpa using h) ⟨hc.running, hc.named, hc.files⟩ hj hdefault
  | saved h h' hc hj hn =>
    obtain ⟨file, hfile, hjson⟩ := hj
    have hnone := nameless_loaded nullString file tail (hc.files file hfile)
    rw [← hjson] at hnone
    exact .reloaded (by simp [save_boot_snoc, h]) (by simpa [save_boot_save_snoc] using not_save_boot_save h')
      ⟨hc.running, hc.named, hc.files⟩ ⟨file, hfile, hjson⟩ hnone
  | reloaded h h' hc hj hn =>
    obtain ⟨file, hfile, hjson⟩ := hj
    have hnone := nameless_loaded nullString file tail (hc.files file hfile)
    rw [← hjson] at hnone
    exact .reloaded (by simp [h]) (by simpa [save_boot_save_snoc] using h')
      ⟨hc.running, hc.named, hc.files⟩ ⟨file, hfile, hjson⟩ hnone
  | lost h hl => exact .lost (by simpa [save_boot_save_snoc] using h) hl

/-- A save is harmless as long as nothing saved before has been loaded. -/
theorem stage_save (nullString : NullString) (history : List Kind) (s : State) (h : Stage nullString history s) :
    Stage nullString (history ++ [.save]) (saveStep nullString s) := by
  have hsaved (hc : Clean nullString s) (hn : DefaultNames s.config) (h' : ¬[Kind.save, .boot].Sublist history) :
      Stage nullString (history ++ [.save]) (saveStep nullString s) := by
    obtain ⟨file, hjson, hfile, hconfig, hclean⟩ := saveStep_default nullString s hc hn
    refine .saved (by simp) (by simpa [save_boot_snoc] using h') hclean ⟨file, hfile, hjson⟩ ?_
    rw [hconfig]
    exact hn
  cases h with
  | fresh h hc hj hn => exact hsaved hc hn (not_save_boot h)
  | saved h h' hc hj hn => exact hsaved hc hn h'
  | reloaded h h' hc hj hn => exact .lost (by simp [save_boot_save_snoc, h]) (saveStep_nameless nullString s hn)
  | lost h hl =>
    refine .lost (by simp [h]) ?_
    unfold saveStep
    simp only
    split <;> exact List.mem_append_left _ hl

theorem stage_step (nullString : NullString) (history : List Kind) (s : State) (l : Label)
    (h : Stage nullString history s) : Stage nullString (history ++ [l.kind]) (step nullString s l) := by
  by_cases hhung : s.hung = true
  · cases h with
    | fresh _ hc _ _ => rw [hc.running] at hhung; contradiction
    | saved _ _ hc _ _ => rw [hc.running] at hhung; contradiction
    | reloaded _ _ hc _ _ => rw [hc.running] at hhung; contradiction
    | lost h hl => exact .lost (by simp [h]) (names_step nullString s l none hl)
  · unfold step
    rw [if_neg hhung]
    cases l with
    | boot tail => exact stage_boot nullString history s tail h
    | modbus regs => exact stage_update nullString history s _ (hostSetModbusParameter_name regs s.config) h
    | overtime regs => exact stage_update nullString history s _ (hostSetNodeOvertime_name regs s.config) h
    | save => exact stage_save nullString history s h

theorem stage_run (nullString : NullString) (labels : List Label) :
    Stage nullString (labels.map Label.kind) (run (step nullString) start labels) := by
  induction labels using List.reverseRecOn with
  | nil => exact .fresh (by simp) ⟨rfl, by simp [run, start], by simp [run, start]⟩ rfl fun i hi => rfl
  | append_singleton labels l ih =>
    rw [List.map_append, run_append]
    exact stage_step nullString _ _ l ih

/-- The save behind the reloading boot converts a nameless entry. -/
theorem not_kept (nullString : NullString) (labels : List Label)
    (h : [Kind.save, .boot, .save].Sublist (labels.map Label.kind)) :
    ¬Kept (run (step nullString) start labels) := by
  intro hkept
  cases stage_run nullString labels with
  | fresh hno _ _ _ => exact not_save_boot_save (not_save_boot hno) h
  | saved _ hno _ _ _ => exact not_save_boot_save hno h
  | reloaded _ hno _ _ _ => exact hno h
  | lost _ hl => exact hkept.1 none hl rfl

/-- The names survive exactly the runs without a save behind a boot behind a save. -/
theorem names_kept_iff (nullString : NullString) (labels : List Label) :
    Kept (run (step nullString) start labels) ↔ ¬[Kind.save, .boot, .save].Sublist (labels.map Label.kind) := by
  constructor
  · exact fun hkept h => not_kept nullString labels h hkept
  · intro h
    cases stage_run nullString labels with
    | fresh _ hc _ _ => exact kept_of_clean nullString _ hc
    | saved _ _ hc _ _ => exact kept_of_clean nullString _ hc
    | reloaded _ _ hc _ _ => exact kept_of_clean nullString _ hc
    | lost hp _ => exact absurd hp h

/-- Save, reset, save: the second file is written from entries without a name. -/
theorem second_save_nameless : ¬Kept (run (step emptyNull) start [.save, .boot [], .save]) :=
  not_kept emptyNull [.save, .boot [], .save] (by decide)

end DataReceiveRelay.EntryNames
