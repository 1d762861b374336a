import DataReceiveRelay.Config
import DataReceiveRelay.DeviceIdFile

/-!
# The save thread

`SaveConfigThreadEntry` loads both files at start-up and then looks at the flag
register once a second: bit 0 takes over the Modbus parameters from register 0,
bit 1 the node timeout from register 1, bit 3 saves the device IDs, bit 15
resets the board. A changed configuration is written back before the reset.
-/

namespace DataReceiveRelay.SaveConfig

open Words Runs Registers Config DeviceIdFile

/-- Everything the thread reads and writes: memory and the two files. -/
structure Device where
  regs : Table
  config : ConfigTable
  json : Option Bytes
  csv : Option Bytes

def setParameter (config : ConfigTable) (i : Nat) (v : U32) : ConfigTable :=
  Function.update config i { config i with parameter := v }

/-- Bits 8 and 9 of register 0 select the baud rate, the low byte is the slave address. -/
def hostSetModbusParameter (regs : Table) (config : ConfigTable) : ConfigTable :=
  let config :=
    match ((regs 0 &&& 0x0300#16) >>> 8).toNat with
    | 0 => setParameter config 0 2400#32
    | 1 => setParameter config 0 4800#32
    | 2 => setParameter config 0 9600#32
    | 3 => setParameter config 0 115200#32
    | _ => config
  setParameter config 1 ((regs 0 &&& 0x00FF#16).setWidth 32)

def hostSetNodeOvertime (regs : Table) (config : ConfigTable) : ConfigTable :=
  setParameter config 2 ((regs 1 &&& 0x00FF#16).setWidth 32)

/-- Registers 0 and 1 from the configuration. -/
def configModbusHoldRegister (config : ConfigTable) (regs : Table) : Table :=
  let address : U16 := (config 1).parameter.setWidth 16
  let baudrate : U16 :=
    if (config 0).parameter = 2400#32 then 0x000#16
    else if (config 0).parameter = 4800#32 then 0x100#16
    else if (config 0).parameter = 9600#32 then 0x200#16
    else if (config 0).parameter = 115200#32 then 0x300#16
    else 0#16
  assign regs [(0, (address ||| baudrate) ||| 0x0C00#16), (1, (config 2).parameter.setWidth 16)]

def clearFlag (regs : Table) (k : Nat) : Table :=
  Function.update regs configFlagAddress (clearBit (regs configFlagAddress) k)

def flag (regs : Table) (k : Nat) : Bool := hasBit (regs configFlagAddress) k

def modbusBlock (s : Device) : Device :=
  if flag s.regs 0 then { s with config := hostSetModbusParameter s.regs s.config, regs := clearFlag s.regs 0 }
  else s

def overtimeBlock (s : Device) : Device :=
  if flag s.regs 1 then { s with config := hostSetNodeOvertime s.regs s.config, regs := clearFlag s.regs 1 }
  else s

def deviceIdBlock (s : Device) : Device :=
  if flag s.regs 3 then { s with csv := some (saveDeviceIdFile s.regs), regs := clearFlag s.regs 3 } else s

/-- `isConfigUpdata` after the first two blocks. -/
def isConfigUpdata (s : Device) : Bool := flag s.regs 0 || flag (modbusBlock s).regs 1

/-- Memory and files when the thread comes to `Create_JsonFile`. -/
def beforeSave (s : Device) : Device := deviceIdBlock (overtimeBlock (modbusBlock s))

/-- `Create_JsonFile`, if the configuration changed; `none` when it does not return. -/
def saveBlock (nullString : NullString) (updated : Bool) (s : Device) : Option Device :=
  if updated then (createJsonFile nullString s.config).map fun file => { s with json := some file } else some s

/-- One turn of the thread's loop, with `true` when it ends in `SystemReset`. -/
def iteration (nullString : NullString) (s : Device) : Option (Device × Bool) :=
  (saveBlock nullString (isConfigUpdata s) (beforeSave s)).map fun s =>
    if flag s.regs 15 then ({ s with regs := clearFlag s.regs 15 }, true) else (s, false)

/-- What the thread does before its loop, on a board that has just been reset. -/
def startUp (nullInt : U32) (tail : Bytes) (json csv : Option Bytes) : Device :=
  let config := (getJsonFile json tail defaultConfig).2
  let regs := configModbusHoldRegister config zeroTable
  ⟨((readDeviceIdFile nullInt csv regs).2.map Reading.regs).getD regs, config, json, csv⟩

section Updates

@[simp] theorem setParameter_name (config : ConfigTable) (i j : Nat) (v : U32) :
    (setParameter config i v j).name = (config j).name := by
  by_cases h : j = i
  · subst h
    simp [setParameter]
  · simp [setParameter, h]

theorem setParameter_other (config : ConfigTable) (i j : Nat) (v : U32) (h : j ≠ i) :
    setParameter config i v j = config j := Function.update_of_ne h _ _

@[simp] theorem setParameter_self (config : ConfigTable) (i : Nat) (v : U32) :
    (setParameter config i v i).parameter = v := by simp [setParameter]

/-- Requests change parameters only. -/
theorem hostSetModbusParameter_name (regs : Table) (config : ConfigTable) (j : Nat) :
    (hostSetModbusParameter regs config j).name = (config j).name := by
  unfold hostSetModbusParameter
  split <;> simp

theorem hostSetNodeOvertime_name (regs : Table) (config : ConfigTable) (j : Nat) :
    (hostSetNodeOvertime regs config j).name = (config j).name := setParameter_name config 2 j _

theorem hostSetModbusParameter_address (regs : Table) (config : ConfigTable) :
    (hostSetModbusParameter regs config 1).parameter = (regs 0 &&& 0x00FF#16).setWidth 32 :=
  setParameter_self _ 1 _

theorem hostSetModbusParameter_overtime (regs : Table) (config : ConfigTable) :
    (hostSetModbusParameter regs config 2).parameter = (config 2).parameter := by
  unfold hostSetModbusParameter
  split <;> simp [setParameter]

theorem lowByte_toNat (r : U16) : ((r &&& 0x00FF#16).setWidth 32).toNat = r.toNat % 256 := by
  have h := Nat.and_two_pow_sub_one_eq_mod r.toNat 8
  have hr := r.isLt
  simp only [BitVec.toNat_setWidth, BitVec.toNat_and, BitVec.toNat_ofNat]
  norm_num at h ⊢
  omega

theorem clearFlag_other (regs : Table) (k a : Nat) (h : a ≠ configFlagAddress) : clearFlag regs k a = regs a :=
  Function.update_of_ne h _ _

theorem flag_clearFlag (regs : Table) (j k : Nat) (h : j ≠ k) : flag (clearFlag regs k) j = flag regs j := by
  rw [flag, clearFlag, Function.update_self, hasBit_clearBit_of_ne _ _ _ h]
  rfl

theorem modbusBlock_config (s : Device) :
    (modbusBlock s).config = if flag s.regs 0 then hostSetModbusParameter s.regs s.config else s.config := by
  unfold modbusBlock
  split <;> rfl

theorem deviceIdBlock_config (s : Device) : (deviceIdBlock s).config = s.config := by
  unfold deviceIdBlock
  split <;> rfl

theorem saveBlock_config (nullString : NullString) (updated : Bool) (s t : Device)
    (h : saveBlock nullString updated s = some t) : t.config = s.config := by
  unfold saveBlock at h
  split at h
  · obtain ⟨file, -, rfl⟩ := Option.map_eq_some_iff.mp h
    rfl
  · cases h
    rfl

/-- What the two configuration blocks leave in the table. -/
theorem beforeSave_config (s : Device) :
    (beforeSave s).config =
      if flag s.regs 1 then hostSetNodeOvertime s.regs
        (if flag s.regs 0 then hostSetModbusParameter s.regs s.config else s.config)
      else if flag s.regs 0 then hostSetModbusParameter s.regs s.config else s.config := by
  have hflag : flag (modbusBlock s).regs 1 = flag s.regs 1 := by
    unfold modbusBlock
    split
    · exact flag_clearFlag s.regs 1 0 (by decide)
    · rfl
  have hreg : (modbusBlock s).regs 1 = s.regs 1 := by
    unfold modbusBlock
    split
    · exact clearFlag_other s.regs 0 1 (by decide)
    · rfl
  rw [beforeSave, deviceIdBlock_config, overtimeBlock, hflag]
  cases flag s.regs 1 with
  | true =>
    simp only [if_true, modbusBlock_config, hostSetNodeOvertime, hreg]
  | false =>
    simp only [Bool.false_eq_true, if_false, modbusBlock_config]

theorem beforeSave_name (s : Device) (j : Nat) : ((beforeSave s).config j).name = (s.config j).name := by
  rw [beforeSave_config]
  split <;> split <;> simp [hostSetNodeOvertime_name, hostSetModbusParameter_name]

theorem beforeSave_json (s : Device) : (beforeSave s).json = s.json := by
  unfold beforeSave deviceIdBlock overtimeBlock modbusBlock
  split <;> split <;> split <;> rfl

end Updates

end DataReceiveRelay.SaveConfig
