import DataReceiveRelay.SaveConfig

/-!
# One turn of the save thread

Without a host write in between, one turn of the loop answers every request
whose bit it finds: the effects of the five blocks on memory and on the two
files, for every combination of bits. Settings taken over in one turn are what
the next boot loads. The turn ends unless a name that has to be saved makes the
JSON printer run forever.
-/

namespace DataReceiveRelay.Iteration

open Words Runs Registers Json Config DeviceIdFile SaveConfig

section Registers

theorem clearBit_of_not (r : U16) (k : Nat) (h : hasBit r k = false) : clearBit r k = r := by
  apply BitVec.eq_of_getLsbD_eq
  intro i hi
  rw [← hasBit_eq, ← hasBit_eq]
  by_cases hk : i = k
  · rw [hk, hasBit_clearBit, h]
  · exact hasBit_clearBit_of_ne r i k hk

theorem clearFlag_of_not (regs : Table) (k : Nat) (h : flag regs k = false) : clearFlag regs k = regs := by
  rw [clearFlag, clearBit_of_not _ _ h, Function.update_eq_self]

/-- A block leaves its bit cleared, also when it found it so. -/
theorem modbusBlock_regs (s : Device) : (modbusBlock s).regs = clearFlag s.regs 0 := by
  unfold modbusBlock
  cases h : flag s.regs 0 with
  | true => rfl
  | false => exact (clearFlag_of_not s.regs 0 h).symm

theorem overtimeBlock_regs (s : Device) : (overtimeBlock s).regs = clearFlag s.regs 1 := by
  unfold overtimeBlock
  cases h : flag s.regs 1 with
  | true => rfl
  | false => exact (clearFlag_of_not s.regs 1 h).symm

theorem deviceIdBlock_regs (s : Device) : (deviceIdBlock s).regs = clearFlag s.regs 3 := by
  unfold deviceIdBlock
  cases h : flag s.regs 3 with
  | true => rfl
  | false => exact (clearFlag_of_not s.regs 3 h).symm

theorem beforeSave_regs (s : Device) : (beforeSave s).regs = clearFlag (clearFlag (clearFlag s.regs 0) 1) 3 := by
  rw [beforeSave, deviceIdBlock_regs, overtimeBlock_regs, modbusBlock_regs]

theorem clearFlags_flag (r : U16) :
    clearBit (clearBit (clearBit (clearBit r 0) 1) 3) 15 = r &&& ~~~0x800B#16 := by
  have hmask : ~~~(1#16 <<< 0) &&& (~~~(1#16 <<< 1) &&& (~~~(1#16 <<< 3) &&& ~~~(1#16 <<< 15))) = ~~~0x800B#16 := by
    decide
  rw [clearBit, clearBit, clearBit, clearBit, BitVec.and_assoc, BitVec.and_assoc, BitVec.and_assoc, hmask]

theorem idAt_clearFlag (regs : Table) (k i : Nat) : idAt (clearFlag regs k) i = idAt regs i :=
  idAt_update_flag regs _ i

/-- The ID file is written from the registers the turn started with. -/
theorem beforeSave_csv (s : Device) :
    (beforeSave s).csv = if flag s.regs 3 then some (saveDeviceIdFile s.regs) else s.csv := by
  have hcsv : (overtimeBlock (modbusBlock s)).csv = s.csv := by
    unfold overtimeBlock modbusBlock
    split <;> split <;> rfl
  have hregs : (overtimeBlock (modbusBlock s)).regs = clearFlag (clearFlag s.regs 0) 1 := by
    rw [overtimeBlock_regs, modbusBlock_regs]
  have hfile : saveDeviceIdFile (clearFlag (clearFlag s.regs 0) 1) = saveDeviceIdFile s.regs := by
    apply saveDeviceIdFile_congr
    intro i _
    rw [idAt_clearFlag, idAt_clearFlag]
  rw [beforeSave, deviceIdBlock, hregs, flag_clearFlag _ 3 1 (by decide), flag_clearFlag _ 3 0 (by decide)]
  cases flag s.regs 3 with
  | true => simp only [if_true, hfile]
  | false => simp only [Bool.false_eq_true, if_false, hcsv]

theorem isConfigUpdata_eq (s : Device) : isConfigUpdata s = (flag s.regs 0 || flag s.regs 1) := by
  rw [isConfigUpdata, modbusBlock_regs, flag_clearFlag _ 1 0 (by decide)]

end Registers

section Effects

/-- The baud rate that bits 8 and 9 select. -/
def selectedBaudrate (r : U16) : U32 :=
  match r.toNat / 256 % 4 with
  | 0 => 2400#32
  | 1 => 4800#32
  | 2 => 9600#32
  | _ => 115200#32

theorem baudrate_bits (r : U16) : ((r &&& 0x0300#16) >>> 8).toNat = r.toNat / 256 % 4 := by
  have h := Nat.and_two_pow_sub_one_eq_mod (r.toNat / 256) 2
  have hshift : (r.toNat &&& 768) / 256 = r.toNat / 256 &&& 3 := Nat.and_div_two_pow (n := 8)
  simp only [BitVec.toNat_ushiftRight, BitVec.toNat_and, BitVec.toNat_ofNat, Nat.shiftRight_eq_div_pow]
  norm_num at h ⊢
  rw [hshift, h]

/-- The switch has a case for each value of the two bits. -/
theorem hostSetModbusParameter_eq (regs : Table) (config : ConfigTable) :
    hostSetModbusParameter regs config =
      setParameter (setParameter config 0 (selectedBaudrate (regs 0))) 1 ((regs 0 &&& 0x00FF#16).setWidth 32) := by
  have hlt : (regs 0).toNat / 256 % 4 < 4 := Nat.mod_lt _ (by decide)
  rw [hostSetModbusParameter, baudrate_bits, selectedBaudrate]
  generalize (regs 0).toNat / 256 % 4 = k at *
  match k with
  | 0 => rfl
  | 1 => rfl
  | 2 => rfl
  | 3 => rfl
  | k + 4 => omega

/-- The table with the requests of bits 0 and 1 applied. -/
def requestedConfig (s : Device) : ConfigTable
  | 0 => if flag s.regs 0 then { s.config 0 with parameter := selectedBaudrate (s.regs 0) } else s.config 0
  | 1 => if flag s.regs 0 then { s.config 1 with parameter := (s.regs 0 &&& 0x00FF#16).setWidth 32 } else s.config 1
  | 2 => if flag s.regs 1 then { s.config 2 with parameter := (s.regs 1 &&& 0x00FF#16).setWidth 32 } else s.config 2
  | i + 3 => s.config (i + 3)

theorem beforeSave_requested (s : Device) : (beforeSave s).config = requestedConfig s := by
  rw [beforeSave_config, hostSetModbusParameter_eq]
  funext i
  cases h₀ : flag s.regs 0 <;> cases h₁ : flag s.regs 1 <;>
    match i with
    | 0 => simp [requestedConfig, h₀, hostSetNodeOvertime, setParameter]
    | 1 => simp [requestedConfig, h₀, hostSetNodeOvertime, setParameter]
    | 2 => simp [requestedConfig, h₁, hostSetNodeOvertime, setParameter]
    | i + 3 => simp [requestedConfig, hostSetNodeOvertime, setParameter]

/-- What one turn does: the four request bits are cleared and no other register changes, each request
has its effect, and the files are written before the reset. -/
structure Effects (nullString : NullString) (s t : Device) (reset : Bool) : Prop where
  flags : t.regs configFlagAddress = s.regs configFlagAddress &&& ~~~0x800B#16
  registers : ∀ a, a ≠ configFlagAddress → t.regs a = s.regs a
  config : t.config = requestedConfig s
  csv : t.csv = if flag s.regs 3 then some (saveDeviceIdFile s.regs) else s.csv
  saved : flag s.regs 0 = true ∨ flag s.regs 1 = true →
    ∃ file, createJsonFile nullString (requestedConfig s) = some file ∧ t.json = some file
  unsaved : flag s.regs 0 = false → flag s.regs 1 = false → t.json = s.json
  reset : reset = flag s.regs 15

/-- The last block, with bit 15 cleared whether or not it was set. -/
theorem iteration_eq (nullString : NullString) (s : Device) :
    iteration nullString s = (saveBlock nullString (flag s.regs 0 || flag s.regs 1) (beforeSave s)).map fun t =>
      ({ t with regs := clearFlag t.regs 15 }, flag t.regs 15) := by
  rw [iteration, isConfigUpdata_eq]
  congr 1
  funext t
  cases h : flag t.regs 15 with
  | true => rfl
  | false =>
    rw [clearFlag_of_not t.regs 15 h]
    rfl

theorem saveBlock_regs (nullString : NullString) (updated : Bool) (s t : Device)
    (h : saveBlock nullString updated s = some t) : t.regs = s.regs ∧ t.csv = s.csv := by
  unfold saveBlock at h
  split at h
  · obtain ⟨file, -, rfl⟩ := Option.map_eq_some_iff.mp h
    exact ⟨rfl, rfl⟩
  · cases h
    exact ⟨rfl, rfl⟩

theorem saveBlock_json (nullString : NullString) (updated : Bool) (s t : Device)
    (h : saveBlock nullString updated s = some t) :
    (updated = true → ∃ file, createJsonFile nullString s.config = some file ∧ t.json = some file) ∧
      (updated = false → t.json = s.json) := by
  cases updated with
  | true =>
    obtain ⟨file, hfile, rfl⟩ := Option.map_eq_some_iff.mp h
    exact ⟨fun _ => ⟨file, hfile, rfl⟩, fun hf => absurd hf.symm Bool.false_ne_true⟩
  | false =>
    cases h
    exact ⟨fun hf => absurd hf Bool.false_ne_true, fun _ => rfl⟩

/-- A turn that ends has all its effects. -/
theorem effects_of_iteration (nullString : NullString) (s t : Device) (reset : Bool)
    (h : iteration nullString s = some (t, reset)) : Effects nullString s t reset := by
  rw [iteration_eq] at h
  obtain ⟨u, hu, heq⟩ := Option.map_eq_some_iff.mp h
  rw [Prod.mk.injEq] at heq
  obtain ⟨rfl, rfl⟩ := heq
  obtain ⟨hregs, hcsv⟩ := saveBlock_regs nullString _ _ u hu
  obtain ⟨hsaved, hunsaved⟩ := saveBlock_json nullString _ _ u hu
  have hconfig := saveBlock_config nullString _ _ u hu
  rw [beforeSave_requested] at hsaved hconfig
  rw [beforeSave_regs] at hregs
  rw [beforeSave_json] at hunsaved
  refine ⟨?_, ?_, hconfig, by rw [hcsv, beforeSave_csv], ?_, ?_, ?_⟩
  · simp only [hregs, clearFlag, Function.update_self, clearFlags_flag]
  · intro a ha
    simp only [hregs, clearFlag_other _ _ a ha]
  · intro hflag
    exact hsaved (by simpa using hflag)
  · intro h₀ h₁
    exact hunsaved (by simp [h₀, h₁])
  · rw [hregs, flag_clearFlag _ 15 3 (by decide), flag_clearFlag _ 15 1 (by decide),
      flag_clearFlag _ 15 0 (by decide)]

theorem requestedConfig_name (s : Device) (i : Nat) : (requestedConfig s i).name = (s.config i).name := by
  rw [← beforeSave_requested, beforeSave_name]

/-- A turn ends unless it has to save a name that cannot be printed. -/
theorem iteration_isSome (nullString : NullString) (s : Device) :
    (iteration nullString s).isSome = true ↔ (flag s.regs 0 = false ∧ flag s.regs 1 = false) ∨
      ∀ i < getConfigFileLength, Prints ((s.config i).name.getD nullString.str).val := by
  have hcreate : (createJsonFile nullString (beforeSave s).config).isSome = true ↔
      ∀ i < getConfigFileLength, Prints ((s.config i).name.getD nullString.str).val := by
    simp only [createJsonFile_isSome, beforeSave_name]
  rw [iteration_eq, Option.isSome_map, ← hcreate, saveBlock]
  cases h₀ : flag s.regs 0 <;> cases h₁ : flag s.regs 1 <;> simp

/-- With names in all entries, a turn has its effects exactly if it need not save or can print them. -/
theorem iteration_effects_iff (nullString : NullString) (s : Device) (hn : ∀ i < 3, (s.config i).name ≠ none) :
    (∃ t reset, iteration nullString s = some (t, reset) ∧ Effects nullString s t reset) ↔
      (flag s.regs 0 = false ∧ flag s.regs 1 = false) ∨ ∀ i < 3, ∀ name ∈ (s.config i).name, Prints name.val := by
  have hnames : (∀ i < 3, ∀ name ∈ (s.config i).name, Prints name.val) ↔
      ∀ i < getConfigFileLength, Prints ((s.config i).name.getD nullString.str).val := by
    apply forall₂_congr
    intro i hi
    obtain ⟨name, hname⟩ := Option.ne_none_iff_exists'.mp (hn i hi)
    simp [hname]
  rw [hnames, ← iteration_isSome]
  constructor
  · rintro ⟨t, reset, hturn, -⟩
    rw [hturn]
    rfl
  · intro h
    obtain ⟨⟨t, reset⟩, hturn⟩ := Option.isSome_iff_exists.mp h
    exact ⟨t, reset, hturn, effects_of_iteration nullString s t reset hturn⟩

/-- Both configuration bits, the ID bit and the reset bit at once, on a board as it left the factory. -/
def allRequests : Device := ⟨Function.update zeroTable configFlagAddress 0x800B#16, defaultConfig, none, none⟩

theorem iteration_effects_all :
    ∃ t reset, iteration emptyNull allRequests = some (t, reset) ∧ Effects emptyNull allRequests t reset := by
  refine (iteration_effects_iff emptyNull allRequests ?_).mpr (.inr ?_)
  · decide
  · intro i hi name hname
    match i with
    | 0 =>
      obtain rfl : baudrateName = name := by simpa [allRequests, defaultConfig] using hname
      exact .inl (by decide)
    | 1 =>
      obtain rfl : slaveAddressName = name := by simpa [allRequests, defaultConfig] using hname
      exact .inl (by decide)
    | 2 =>
      obtain rfl : nodeOvertimeName = name := by simpa [allRequests, defaultConfig] using hname
      exact .inl (by decide)

/-- A request of bit 0 with a quotation mark for a name: the save never returns. -/
theorem quoted_name_hangs :
    ¬∃ t reset, iteration emptyNull ⟨Function.update zeroTable configFlagAddress 1#16,
        fun _ => ⟨some ⟨[quote], by decide⟩, 0#32, 0#32⟩, none, none⟩ = some (t, reset) ∧
      Effects emptyNull ⟨Function.update zeroTable configFlagAddress 1#16,
        fun _ => ⟨some ⟨[quote], by decide⟩, 0#32, 0#32⟩, none, none⟩ t reset := by
  rintro ⟨t, reset, hturn, -⟩
  have hsome := (iteration_isSome emptyNull _).mp (Option.isSome_iff_exists.mpr ⟨_, hturn⟩)
  rcases hsome with ⟨hflag, -⟩ | hprints
  · revert hflag
    decide
  · rcases hprints 0 (by decide) with h | h
    · have hquote := h quote (by simp)
      revert hquote
      decide
    · have hquote := h quote (by simp)
      revert hquote
      decide

end Effects

section Reboot

theorem startUp_config (nullInt : U32) (tail : Bytes) (json csv : Option Bytes) :
    (startUp nullInt tail json csv).config = (getJsonFile json tail defaultConfig).2 := rfl

/-- The ID file does not reach the configuration registers. -/
theorem startUp_regs (nullInt : U32) (tail : Bytes) (json csv : Option Bytes) (a : Nat) (ha : a < 0x708) :
    (startUp nullInt tail json csv).regs a =
      configModbusHoldRegister (getJsonFile json tail defaultConfig).2 zeroTable a := by
  simp only [startUp]
  cases h : (readDeviceIdFile nullInt csv
      (configModbusHoldRegister (getJsonFile json tail defaultConfig).2 zeroTable)).2 with
  | none => rfl
  | some r => exact readDeviceIdFile_other nullInt csv _ r h a (.inl ha)

theorem baudrate_mask (r : U16) : r &&& 0x0300#16 = BitVec.ofNat 16 (256 * (r.toNat / 256 % 4)) := by
  have hbits := baudrate_bits r
  have hlow : (r.toNat &&& 768) % 256 = 0 := by
    have h := Nat.and_mod_two_pow (a := r.toNat) (b := 768) (n := 8)
    simpa using h
  apply BitVec.eq_of_toNat_eq
  simp only [BitVec.toNat_ushiftRight, BitVec.toNat_and, BitVec.toNat_ofNat, Nat.shiftRight_eq_div_pow] at hbits ⊢
  norm_num at hbits ⊢
  omega

/-- Register 0 is put together again from the parameters it was taken apart into. -/
theorem configModbusHoldRegister_zero (config : ConfigTable) (regs : Table) (w : U16)
    (hbaudrate : (config 0).parameter = selectedBaudrate w)
    (haddress : (config 1).parameter = (w &&& 0x00FF#16).setWidth 32) :
    configModbusHoldRegister config regs 0 = w &&& 0x03FF#16 ||| 0x0C00#16 := by
  have hmask : w &&& 0x03FF#16 = (w &&& 0x00FF#16) ||| (w &&& 0x0300#16) := by
    rw [← BitVec.and_or_distrib_left]
    rfl
  have hlow : ((w &&& 0x00FF#16).setWidth 32).setWidth 16 = w &&& 0x00FF#16 := by
    rw [BitVec.setWidth_setWidth_of_le _ (by decide), BitVec.setWidth_eq]
  have hlt : w.toNat / 256 % 4 < 4 := Nat.mod_lt _ (by decide)
  rw [hmask, baudrate_mask]
  simp only [configModbusHoldRegister, hbaudrate, haddress, hlow, selectedBaudrate]
  generalize w.toNat / 256 % 4 = k at *
  interval_cases k <;> rfl

theorem configModbusHoldRegister_one (config : ConfigTable) (regs : Table) (w : U16)
    (hovertime : (config 2).parameter = (w &&& 0x00FF#16).setWidth 32) :
    configModbusHoldRegister config regs 1 = w &&& 0x00FF#16 := by
  have hlow : ((w &&& 0x00FF#16).setWidth 32).setWidth 16 = w &&& 0x00FF#16 := by
    rw [BitVec.setWidth_setWidth_of_le _ (by decide), BitVec.setWidth_eq]
  simp only [configModbusHoldRegister, hovertime, hlow]
  rfl

/-- The host writes both configuration registers and raises their two bits. -/
def settingsRequest (w₀ w₁ : U16) (regs : Table) : Table :=
  assign regs [(0, w₀), (1, w₁), (configFlagAddress, setBit (setBit (regs configFlagAddress) 0) 1)]

theorem settingsRequest_flags (w₀ w₁ : U16) (regs : Table) :
    flag (settingsRequest w₀ w₁ regs) 0 = true ∧ flag (settingsRequest w₀ w₁ regs) 1 = true := by
  have hset (r : U16) : hasBit (setBit (setBit r 0) 1) 0 = true := by
    rw [hasBit_eq, setBit, setBit, BitVec.getLsbD_or, BitVec.getLsbD_or]
    simp
  exact ⟨hset _, hasBit_setBit _ 1 (by decide)⟩

/-- Settings taken over in one turn are in force and in the registers after the next boot. -/
theorem settings_survive_reboot (nullString : NullString) (s : Device) (h : DefaultNames s.config) (w₀ w₁ : U16) :
    ∃ t reset, iteration nullString { s with regs := settingsRequest w₀ w₁ s.regs } = some (t, reset) ∧
      ∀ nullInt tail,
        (startUp nullInt tail t.json t.csv).regs 0 = w₀ &&& 0x03FF#16 ||| 0x0C00#16 ∧
        (startUp nullInt tail t.json t.csv).regs 1 = w₁ &&& 0x00FF#16 ∧
        ((startUp nullInt tail t.json t.csv).config 0).parameter = selectedBaudrate w₀ ∧
        ((startUp nullInt tail t.json t.csv).config 1).parameter = (w₀ &&& 0x00FF#16).setWidth 32 ∧
        ((startUp nullInt tail t.json t.csv).config 2).parameter = (w₁ &&& 0x00FF#16).setWidth 32 := by
  let d : Device := { s with regs := settingsRequest w₀ w₁ s.regs }
  obtain ⟨h₀, h₁⟩ := settingsRequest_flags w₀ w₁ s.regs
  have hnames : DefaultNames (requestedConfig d) := fun i hi => (requestedConfig_name d i).trans (h i hi)
  obtain ⟨file, hfile⟩ := createJsonFile_defaultNames nullString _ hnames
  obtain ⟨⟨t, reset⟩, hturn⟩ : ∃ turn, iteration nullString d = some turn := by
    rw [iteration_eq]
    simp [saveBlock, beforeSave_requested, hfile, d, h₀]
  refine ⟨t, reset, hturn, ?_⟩
  intro nullInt tail
  obtain ⟨file', hfile', hjson⟩ := (effects_of_iteration nullString d t reset hturn).saved (.inl h₀)
  have hload := getJsonFile_createJsonFile nullString _ defaultConfig file' tail
    (shortNames_of_defaultNames _ hnames) hfile'
  have hreg₀ : settingsRequest w₀ w₁ s.regs 0 = w₀ := rfl
  have hreg₁ : settingsRequest w₀ w₁ s.regs 1 = w₁ := rfl
  have hbaudrate : ((getJsonFile (some file') tail defaultConfig).2 0).parameter = selectedBaudrate w₀ := by
    simp [hload, getConfigFileLength, reloaded, requestedConfig, d, h₀, hreg₀]
  have haddress : ((getJsonFile (some file') tail defaultConfig).2 1).parameter =
      (w₀ &&& 0x00FF#16).setWidth 32 := by
    simp [hload, getConfigFileLength, reloaded, requestedConfig, d, h₀, hreg₀]
  have hovertime : ((getJsonFile (some file') tail defaultConfig).2 2).parameter =
      (w₁ &&& 0x00FF#16).setWidth 32 := by
    simp [hload, getConfigFileLength, reloaded, requestedConfig, d, h₁, hreg₁]
  rw [startUp_regs _ _ _ _ 0 (by decide), startUp_regs _ _ _ _ 1 (by decide), startUp_config, hjson]
  exact ⟨configModbusHoldRegister_zero _ _ w₀ hbaudrate haddress,
    configModbusHoldRegister_one _ _ w₁ hovertime, hbaudrate, haddress, hovertime⟩

/-- From the factory settings: 4800 baud, address 5 and a time-out of 10. -/
theorem settings_survive_first_reboot :
    DefaultNames defaultConfig ∧
    ∃ t reset, iteration emptyNull ⟨settingsRequest 0x0105#16 0x000A#16 zeroTable, defaultConfig, none, none⟩ =
        some (t, reset) ∧
      ∀ nullInt tail,
        (startUp nullInt tail t.json t.csv).regs 0 = 0x0D05#16 ∧
        (startUp nullInt tail t.json t.csv).regs 1 = 0x000A#16 := by
  have hnames : DefaultNames defaultConfig := fun _ _ => rfl
  obtain ⟨t, reset, hturn, hboot⟩ := settings_survive_reboot emptyNull ⟨zeroTable, defaultConfig, none, none⟩ hnames
    0x0105#16 0x000A#16
  refine ⟨hnames, t, reset, hturn, ?_⟩
  intro nullInt tail
  obtain ⟨h₀, h₁, -⟩ := hboot nullInt tail
  exact ⟨h₀, h₁⟩

end Reboot

end DataReceiveRelay.Iteration
