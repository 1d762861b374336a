import DataReceiveRelay.Words
import DataReceiveRelay.Runs

/-!
# The holding-register table

`usSRegHoldBuf` is the one table shared by the Modbus slave, the receive
thread, the timeout thread and the save thread. It is a total function on
register indices; the array itself has `S_REG_HOLDING_NREGS` cells, and every
index the program forms is shown to be below that bound where it is used.

Six areas are packed behind the eight configuration registers, with strides
one, two and three per node.
-/

namespace DataReceiveRelay.Registers

open Words Runs

/-- The holding registers `usSRegHoldBuf`. -/
abbrev Table := Nat → U16

def sRegHoldingNregs : Nat := 3080

def configFlagAddress : Nat := 0x007
def temperatureFirstAddress : Nat := 0x008
def voltageFirstAddress : Nat := 0x108
def launchNumberFiratAddress : Nat := 0x208
def nodeStatusFirstAddress : Nat := 0x408
def nodeDeviceIdFirstAddress : Nat := 0x708
def receivingMomentFiratAddress : Nat := 0xA08

/-- Number of transmitters the table has room for. -/
def nodeCount : Nat := 256

/-- The table at power-up. -/
def zeroTable : Table := fun _ => 0

/-- Device ID of slot `i`, low word first. -/
def idAt (regs : Table) (i : Nat) : U32 :=
  join (regs (nodeDeviceIdFirstAddress + 2 * i)) (regs (nodeDeviceIdFirstAddress + 1 + 2 * i))

/-- Launch counter of node `n`. -/
def launchAt (regs : Table) (n : Nat) : U32 :=
  join (regs (launchNumberFiratAddress + 2 * n)) (regs (launchNumberFiratAddress + 1 + 2 * n))

/-- Receive time of node `n`; zero doubles as "never received". -/
def receiveTimeAt (regs : Table) (n : Nat) : U32 :=
  join (regs (receivingMomentFiratAddress + 2 * n)) (regs (receivingMomentFiratAddress + 1 + 2 * n))

/-- The seven data registers of node `n`. -/
def nodeRegisters (n : Nat) : List Nat :=
  [temperatureFirstAddress + n, voltageFirstAddress + n,
    launchNumberFiratAddress + 2 * n, launchNumberFiratAddress + 1 + 2 * n,
    nodeStatusFirstAddress + 2 + 3 * n,
    receivingMomentFiratAddress + 2 * n, receivingMomentFiratAddress + 1 + 2 * n]

theorem mem_nodeRegisters (n a : Nat) : a ∈ nodeRegisters n ↔
    a = 0x008 + n ∨ a = 0x108 + n ∨ a = 0x208 + 2 * n ∨ a = 0x209 + 2 * n ∨
      a = 0x40A + 3 * n ∨ a = 0xA08 + 2 * n ∨ a = 0xA09 + 2 * n := by
  simp [nodeRegisters, temperatureFirstAddress, voltageFirstAddress, launchNumberFiratAddress,
    nodeStatusFirstAddress, receivingMomentFiratAddress]

/-- Every data register of a node in the table is a cell of the array. -/
theorem nodeRegisters_lt (n a : Nat) (hn : n < nodeCount) (ha : a ∈ nodeRegisters n) :
    a < sRegHoldingNregs := by
  rw [mem_nodeRegisters] at ha
  simp only [nodeCount, sRegHoldingNregs] at *
  omega

/-- The strides never let two nodes share a register. -/
theorem nodeRegisters_disjoint (m n a : Nat) (hm : m < nodeCount) (hn : n < nodeCount) (h : m ≠ n)
    (ha : a ∈ nodeRegisters m) : a ∉ nodeRegisters n := by
  rw [mem_nodeRegisters] at *
  simp only [nodeCount] at *
  omega

/-- Data registers lie outside the device-ID area. -/
theorem nodeRegisters_not_id (n a : Nat) (hn : n < nodeCount) (ha : a ∈ nodeRegisters n) :
    a < 0x708 ∨ 0x907 < a := by
  rw [mem_nodeRegisters] at ha
  simp only [nodeCount] at hn
  omega

/-- The ID search only looks at the device-ID area. -/
theorem idAt_congr (regs regs' : Table) (i : Nat) (hi : i < nodeCount)
    (h : ∀ a, 0x708 ≤ a → a ≤ 0x907 → regs a = regs' a) : idAt regs i = idAt regs' i := by
  simp only [nodeCount, idAt, nodeDeviceIdFirstAddress] at *
  rw [h (0x708 + 2 * i) (by omega) (by omega), h (0x708 + 1 + 2 * i) (by omega) (by omega)]

/-- The flag register is not part of the device-ID area. -/
theorem idAt_update_flag (regs : Table) (r : U16) (i : Nat) :
    idAt (Function.update regs configFlagAddress r) i = idAt regs i := by
  have h₀ : nodeDeviceIdFirstAddress + 2 * i ≠ configFlagAddress := by
    simp only [nodeDeviceIdFirstAddress, configFlagAddress]
    omega
  have h₁ : nodeDeviceIdFirstAddress + 1 + 2 * i ≠ configFlagAddress := by
    simp only [nodeDeviceIdFirstAddress, configFlagAddress]
    omega
  simp [idAt, Function.update_of_ne h₀, Function.update_of_ne h₁]

end DataReceiveRelay.Registers
