import DataReceiveRelay.Registers
import DataReceiveRelay.Radio

/-!
# Frame analysis and the node record

A node frame has twelve bytes: header `0x5A`, one unused byte, a big-endian
32-bit device ID, the temperature and voltage words, and a big-endian 16-bit
sum of the first ten bytes. `dataFrameAnalysis` checks header and sum and fills
the node structure; the `save*` functions write it into the register table.

Floating point is a parameter: `CFloat` lists the operations the conversions
use, and `narrow` is the rounding of a double stored into a float. The function
pointers of the node structure never change and are left out of it.
-/

namespace DataReceiveRelay.DataFrame

open Words Runs Registers Radio

/-- The floating-point operations of the conversion formulas. -/
class CFloat (F : Type) extends Add F, Sub F, Mul F, Div F, Neg F where
  ofInt : Int → F
  /-- The decimal literal `m / 10 ^ e`. -/
  lit : Nat → Nat → F
  sqrt : F → F
  pow : F → F → F
  narrow : F → F
  isPos : F → Bool
  toU16 : F → U16
  toI16 : F → U16

/-- IEEE double arithmetic, rounded to single precision where C stores a float. -/
instance ieeeFloat : CFloat Float where
  ofInt := Float.ofInt
  lit m e := Float.ofScientific m true e
  sqrt := Float.sqrt
  pow := Float.pow
  narrow x := x.toFloat32.toFloat
  isPos x := decide (0 < x)
  toU16 x := x.toUInt16.toBitVec
  toI16 x := x.toInt16.toBitVec

open CFloat

variable {F : Type} [CFloat F]

/-- The data fields of `NodeDataStruct`. -/
structure NodeData (F : Type) where
  isDataValid : Bool
  deviceId : U32
  temperatureValue : F
  voltageValue : F
  deviceNumber : U8
  rssiValue : U8
  lqiValue : U8

/-- Only the valid flag is initialised; the values keep what the stack held. -/
def nodeDataStructInit (nodeData : NodeData F) : NodeData F :=
  { nodeData with isDataValid := false }

/-- The summing loop `for (uint8_t i = 0; i < (lenth - 2); i++)`; `none` when
the fuel runs out before the loop condition fails. -/
def checkSumLoop (data : Nat → U8) (lenth : U8) : Nat → U8 → U16 → Option U16
  | 0, _, _ => none
  | fuel + 1, i, result =>
    if (i.toNat : Int) < (lenth.toNat : Int) - 2 then
      checkSumLoop data lenth fuel (i + 1#8) (result + (data i.toNat).setWidth 16)
    else some result

def checkSum (data : Nat → U8) (lenth : U8) : Option U8 :=
  (checkSumLoop data lenth 256 0#8 0#16).map fun result =>
    if (data (lenth.toNat - 2)).setWidth 16 = (result &&& 0xFF00#16) >>> 8 ∧
        (data (lenth.toNat - 1)).setWidth 16 = result &&& 0x00FF#16 then 0#8
    else 1#8

def calculateDeviceId (data : Nat → U8) : U32 :=
  ((data 0).setWidth 32 <<< 24) + ((data 1).setWidth 32 <<< 16) + ((data 2).setWidth 32 <<< 8) +
    (data 3).setWidth 32

/-- `(data[0] << 8) + data[1]` as a 16-bit word. -/
def beWord (data : Nat → U8) : U16 := ((data 0).setWidth 16 <<< 8) + (data 1).setWidth 16

def calculateVolatge (data : Nat → U8) : F :=
  let voltageInt := beWord data
  narrow (ofInt voltageInt.toNat * (lit 2500 0 / lit 1023 0) * lit 2 0)

def calculateTemperature (data : Nat → U8) : F :=
  let temperatureInt := beWord data
  let temperatureFloat : F := narrow (ofInt temperatureInt.toNat * (lit 2500 0 / lit 1023 0))
  narrow ((lit 5506 3 - sqrt (pow (-lit 5506 3) (lit 2 0) +
    lit 4 0 * lit 176 5 * (lit 8706 1 - temperatureFloat))) / (lit 2 0 * -lit 176 5) + lit 30 0)

/-- RSSI and LQI from the status registers; the result is stored in an `int8_t`. -/
def calculateSignalStrength (value : StatusRegisters) (nodeData : NodeData F) : NodeData F :=
  let rssiOffset : Int := 75
  { nodeData with
    rssiValue :=
      if value.rssi.toNat ≥ 128 then
        BitVec.ofInt 8 ((BitVec.ofInt 8 ((BitVec.ofInt 8 ((value.rssi.toNat : Int) - 256)).toInt.tdiv 2)).toInt
          - rssiOffset)
      else BitVec.ofInt 8 ((value.rssi.toNat : Int).tdiv 2 - rssiOffset)
    lqiValue := value.lqi &&& 0x7F#8 }

/-- Returns 0 for a good frame, 1 for a wrong sum, 2 for a wrong header. -/
def dataFrameAnalysis (sourceData : Nat → U8) (value : StatusRegisters) (nodeData : NodeData F) :
    U8 × NodeData F :=
  if sourceData 0 = 0x5A#8 then
    if checkSum sourceData 12#8 = some 0#8 then
      let nodeData := calculateSignalStrength value nodeData
      (0#8, { nodeData with
        deviceId := calculateDeviceId fun i => sourceData (2 + i)
        temperatureValue := calculateTemperature fun i => sourceData (6 + i)
        voltageValue := calculateVolatge fun i => sourceData (8 + i)
        isDataValid := true })
    else (1#8, nodeData)
  else (2#8, nodeData)

/-- First slot of the ID table that holds the device ID; 1 when there is none. -/
def getDeviceNumber (regs : Table) (nodeData : NodeData F) : U8 × NodeData F :=
  match (List.range nodeCount).find? fun i => nodeData.deviceId == idAt regs i with
  | some i => (0#8, { nodeData with deviceNumber := BitVec.ofNat 8 i })
  | none => (1#8, nodeData)

/-- Tenths of a degree, with 2000 added for readings that are not positive. -/
def temperatureFormat (temperatureValue : F) : U16 :=
  if isPos temperatureValue then toU16 (narrow (temperatureValue * lit 10 0))
  else
    let temp := toI16 (-temperatureValue)
    2000#16 + temp * 10#16

def saveTemperature (nodeData : NodeData F) (regs : Table) : Table :=
  if nodeData.isDataValid then
    assign regs [(temperatureFirstAddress + nodeData.deviceNumber.toNat,
      temperatureFormat nodeData.temperatureValue)]
  else regs

def saveVoltage (nodeData : NodeData F) (regs : Table) : Table :=
  if nodeData.isDataValid then
    assign regs [(voltageFirstAddress + nodeData.deviceNumber.toNat, toI16 nodeData.voltageValue)]
  else regs

/-- `(RSSI_Value << 8) + LQI_Value`, the signed value shifted as an `int`. -/
def signalWord (nodeData : NodeData F) : U16 :=
  ((nodeData.rssiValue.signExtend 32 <<< 8) + nodeData.lqiValue.setWidth 32).setWidth 16

def saveSignalStrength (nodeData : NodeData F) (regs : Table) : Table :=
  if nodeData.isDataValid then
    assign regs [(nodeStatusFirstAddress + 2 + 3 * nodeData.deviceNumber.toNat, signalWord nodeData)]
  else regs

def saveLaunchNumber (nodeData : NodeData F) (regs : Table) : Table :=
  if nodeData.isDataValid then
    let n := nodeData.deviceNumber.toNat
    let launchNumber := launchAt regs n + 1#32
    assign regs [(launchNumberFiratAddress + 2 * n, low launchNumber),
      (launchNumberFiratAddress + 1 + 2 * n, high launchNumber)]
  else regs

def saveReceiveTime (receiveTime : U32) (nodeData : NodeData F) (regs : Table) : Table :=
  if nodeData.isDataValid then
    let n := nodeData.deviceNumber.toNat
    assign regs [(receivingMomentFiratAddress + 2 * n, low receiveTime),
      (receivingMomentFiratAddress + 1 + 2 * n, high receiveTime)]
  else regs

/-- The five stores of one frame, in the order the receive loop calls them. -/
def storeFrame (receiveTime : U32) (nodeData : NodeData F) (regs : Table) : Table :=
  saveReceiveTime receiveTime nodeData (saveLaunchNumber nodeData (saveSignalStrength nodeData
    (saveVoltage nodeData (saveTemperature nodeData regs))))

section CheckSum

/-- The unbounded sum the frame format asks for. -/
def byteSum (data : Nat → U8) (n : Nat) : Nat := ∑ k ∈ Finset.range n, (data k).toNat

theorem byteSum_le (data : Nat → U8) (n : Nat) : byteSum data n ≤ 255 * n := by
  have h : ∀ k ∈ Finset.range n, (data k).toNat ≤ 255 := by
    intro k _
    have := (data k).isLt
    omega
  have hs := Finset.sum_le_card_nsmul (Finset.range n) (fun k => (data k).toNat) 255 h
  simp only [Finset.card_range, smul_eq_mul] at hs
  rw [byteSum]
  omega

/-- One round of the loop keeps both words exact. -/
theorem checkSum_step (data : Nat → U8) (lenth i : U8) (result : U16) (hi : i.toNat + 2 < lenth.toNat)
    (hr : result.toNat = byteSum data i.toNat) :
    (i + 1#8).toNat = i.toNat + 1 ∧
      (result + (data i.toNat).setWidth 16).toNat = byteSum data (i + 1#8).toNat := by
  have hlt := lenth.isLt
  have hstep : (i + 1#8).toNat = i.toNat + 1 := by
    simp only [BitVec.toNat_add, BitVec.toNat_ofNat]
    omega
  have hbound := byteSum_le data (i.toNat + 1)
  have hnext : byteSum data (i.toNat + 1) = byteSum data i.toNat + (data i.toNat).toNat :=
    Finset.sum_range_succ _ _
  refine ⟨hstep, ?_⟩
  rw [hstep]
  simp only [BitVec.toNat_add, BitVec.toNat_setWidth, hr]
  omega

/-- Loop invariant: with `i` bytes added, the accumulator is their exact sum. -/
theorem checkSumLoop_spec (data : Nat → U8) (lenth : U8) (hl : 2 ≤ lenth.toNat) (m fuel : Nat)
    (i : U8) (result : U16) (hi : i.toNat + m = lenth.toNat - 2) (hf : m < fuel)
    (hr : result.toNat = byteSum data i.toNat) :
    ∃ r, checkSumLoop data lenth fuel i result = some r ∧
      r.toNat = byteSum data (lenth.toNat - 2) := by
  have hlt := lenth.isLt
  induction m generalizing fuel i result with
  | zero =>
    obtain ⟨fuel, rfl⟩ : ∃ f, fuel = f + 1 := ⟨fuel - 1, by omega⟩
    refine ⟨result, ?_, ?_⟩
    · rw [checkSumLoop, if_neg (by omega)]
    · rw [hr, show i.toNat = lenth.toNat - 2 by omega]
  | succ m ih =>
    obtain ⟨fuel, rfl⟩ : ∃ f, fuel = f + 1 := ⟨fuel - 1, by omega⟩
    obtain ⟨hstep, hacc⟩ := checkSum_step data lenth i result (by omega) hr
    rw [checkSumLoop, if_pos (by omega)]
    exact ih fuel (i + 1#8) _ (by omega) (by omega) hacc

theorem sumBytes_match (hi lo : U8) (r : U16) :
    (hi.setWidth 16 = (r &&& 0xFF00#16) >>> 8 ∧ lo.setWidth 16 = r &&& 0x00FF#16) ↔
      256 * hi.toNat + lo.toNat = r.toNat := by
  have hr := r.isLt
  have hhi := hi.isLt
  have hlo := lo.isLt
  have hmask : ∀ i : Fin 8, (0xFF00#16).getLsbD (8 + i.val) = true := by decide
  have h1 : (r &&& 0xFF00#16) >>> 8 = r >>> 8 := by
    apply BitVec.eq_of_getLsbD_eq
    intro i hi
    simp only [BitVec.getLsbD_ushiftRight, BitVec.getLsbD_and]
    by_cases h : i < 8
    · rw [hmask ⟨i, h⟩, Bool.and_true]
    · rw [BitVec.getLsbD_of_ge r (8 + i) (by omega), Bool.false_and]
  have h2 : (r &&& 0x00FF#16).toNat = r.toNat % 256 := by
    have h := Nat.and_two_pow_sub_one_eq_mod r.toNat 8
    norm_num at h
    simp only [BitVec.toNat_and, BitVec.toNat_ofNat]
    norm_num [h]
  rw [h1]
  simp only [← BitVec.toNat_inj, BitVec.toNat_setWidth, BitVec.toNat_ushiftRight, h2,
    Nat.shiftRight_eq_div_pow]
  omega

/-- The check is exact: no accumulator or index of the loop wraps. -/
theorem checkSum_exact (data : Nat → U8) (lenth : U8) (hl : 2 ≤ lenth.toNat) :
    checkSum data lenth = some (if 256 * (data (lenth.toNat - 2)).toNat + (data (lenth.toNat - 1)).toNat =
      byteSum data (lenth.toNat - 2) then 0#8 else 1#8) := by
  have hlt := lenth.isLt
  obtain ⟨r, hloop, hr⟩ := checkSumLoop_spec data lenth hl (lenth.toNat - 2) 256 0#8 0#16 (by simp)
    (by omega) (by simp [byteSum])
  rw [checkSum, hloop, Option.map_some, ← hr]
  simp only [sumBytes_match]

/-- Index and accumulator at every test of the loop condition, in order. -/
def checkSumHeads (data : Nat → U8) (lenth : U8) : Nat → U8 → U16 → List (U8 × U16)
  | 0, _, _ => []
  | fuel + 1, i, result =>
    (i, result) ::
      if (i.toNat : Int) < (lenth.toNat : Int) - 2 then
        checkSumHeads data lenth fuel (i + 1#8) (result + (data i.toNat).setWidth 16)
      else []

/-- Neither word wraps: the tests see the indices in order, each with the exact sum so far. -/
theorem checkSumHeads_exact (data : Nat → U8) (lenth : U8) (hl : 2 ≤ lenth.toNat) (m fuel : Nat) (i : U8)
    (result : U16) (hi : i.toNat + m = lenth.toNat - 2) (hf : m < fuel) (hr : result.toNat = byteSum data i.toNat) :
    (checkSumHeads data lenth fuel i result).map (fun head => (head.1.toNat, head.2.toNat)) =
      (List.range' i.toNat (m + 1)).map fun k => (k, byteSum data k) := by
  induction m generalizing fuel i result with
  | zero =>
    obtain ⟨fuel, rfl⟩ : ∃ f, fuel = f + 1 := ⟨fuel - 1, by omega⟩
    rw [checkSumHeads, if_neg (by omega)]
    simp [hr]
  | succ m ih =>
    obtain ⟨fuel, rfl⟩ : ∃ f, fuel = f + 1 := ⟨fuel - 1, by omega⟩
    obtain ⟨hstep, hacc⟩ := checkSum_step data lenth i result (by omega) hr
    rw [checkSumHeads, if_pos (by omega), List.map_cons, ih fuel (i + 1#8) _ (by omega) (by omega) hacc,
      hstep, hr]
    rfl

/-- The sum over the front of a memory is the sum of the bytes that lie there. -/
theorem byteSum_overlay (bytes : List U8) (memory : Nat → U8) (k : Nat) (hk : k ≤ bytes.length) :
    byteSum (overlay bytes memory) k = ((bytes.take k).map BitVec.toNat).sum := by
  induction k with
  | zero => simp [byteSum]
  | succ k ih =>
    have hlt : k < bytes.length := by omega
    have hbyte : overlay bytes memory k = bytes[k] := by simp [overlay, hlt]
    rw [byteSum, Finset.sum_range_succ, ← byteSum, ih (by omega), hbyte, List.take_succ_eq_append_getElem hlt,
      List.map_append, List.sum_append, List.map_singleton, List.sum_singleton]

/-- `CheckSum` on any list of bytes that its length argument can describe: it ends, it is exact, and no index or
accumulator on the way differs from the unbounded one. -/
theorem checkSum_bytes (bytes : List U8) (memory : Nat → U8) (hlo : 2 ≤ bytes.length) (hhi : bytes.length ≤ 255) :
    ∃ ret, checkSum (overlay bytes memory) (BitVec.ofNat 8 bytes.length) = some ret ∧
      (ret = 0#8 ↔ 256 * bytes[bytes.length - 2].toNat + bytes[bytes.length - 1].toNat =
        ((bytes.take (bytes.length - 2)).map BitVec.toNat).sum) ∧
      (checkSumHeads (overlay bytes memory) (BitVec.ofNat 8 bytes.length) 256 0#8 0#16).map
          (fun head => (head.1.toNat, head.2.toNat)) =
        (List.range (bytes.length - 1)).map fun k => (k, ((bytes.take k).map BitVec.toNat).sum) := by
  have hlen : (BitVec.ofNat 8 bytes.length).toNat = bytes.length := by
    rw [BitVec.toNat_ofNat]
    omega
  have hcheck := checkSum_exact (overlay bytes memory) (BitVec.ofNat 8 bytes.length) (by omega)
  have hheads := checkSumHeads_exact (overlay bytes memory) (BitVec.ofNat 8 bytes.length) (by omega)
    (bytes.length - 2) 256 0#8 0#16 (by rw [hlen]; simp) (by omega) (by simp [byteSum])
  have hhigh : overlay bytes memory (bytes.length - 2) = bytes[bytes.length - 2] := by
    simp [overlay, show bytes.length - 2 < bytes.length by omega]
  have hlow : overlay bytes memory (bytes.length - 1) = bytes[bytes.length - 1] := by
    simp [overlay, show bytes.length - 1 < bytes.length by omega]
  rw [hlen, hhigh, hlow, byteSum_overlay bytes memory _ (by omega)] at hcheck
  refine ⟨_, hcheck, by simp, ?_⟩
  rw [hheads, List.range_eq_range', show bytes.length - 2 + 1 = bytes.length - 1 by omega]
  apply List.map_congr_left
  intro k hk
  have hk' := (List.mem_range'_1.mp hk).2
  rw [byteSum_overlay bytes memory k (by simp at hk'; omega)]

/-- The shortest list with a byte to add, and a longer one whose sum needs its high byte. -/
theorem checkSum_bytes_three :
    (∃ ret, checkSum (overlay [7#8, 0#8, 7#8] fun _ => 0#8) 3#8 = some ret ∧ ret = 0#8) ∧
    ∃ ret, checkSum (overlay [255#8, 255#8, 1#8, 254#8] fun _ => 0#8) 4#8 = some ret ∧ ret = 0#8 := by
  obtain ⟨ret, hret, hzero, -⟩ := checkSum_bytes [7#8, 0#8, 7#8] (fun _ => 0#8) (by decide) (by decide)
  obtain ⟨ret', hret', hzero', -⟩ := checkSum_bytes [255#8, 255#8, 1#8, 254#8] (fun _ => 0#8) (by decide) (by decide)
  exact ⟨⟨ret, hret, hzero.mpr (by decide)⟩, ret', hret', hzero'.mpr (by decide)⟩

end CheckSum

/-- What the frame format asks of twelve bytes. -/
def GoodFrame (b : Nat → U8) : Prop :=
  b 0 = 0x5A#8 ∧ 256 * (b 10).toNat + (b 11).toNat = byteSum b 10

instance (b : Nat → U8) : Decidable (GoodFrame b) := inferInstanceAs (Decidable (_ ∧ _))

theorem checkSum_twelve (b : Nat → U8) :
    checkSum b 12#8 = some 0#8 ↔ 256 * (b 10).toNat + (b 11).toNat = byteSum b 10 := by
  rw [checkSum_exact b 12#8 (by decide)]
  simp

/-- The return code is 0 exactly on good frames. -/
theorem dataFrameAnalysis_eq_zero_iff (b : Nat → U8) (value : StatusRegisters) (nodeData : NodeData F) :
    (dataFrameAnalysis b value nodeData).1 = 0#8 ↔ GoodFrame b := by
  unfold dataFrameAnalysis GoodFrame
  by_cases hh : b 0 = 0x5A#8
  · by_cases hs : checkSum b 12#8 = some 0#8
    · simp [hh, hs, (checkSum_twelve b).mp hs]
    · simp [hh, hs, mt (checkSum_twelve b).mpr hs]
  · simp [hh]

/-- A frame that fails its checks leaves the node structure alone. -/
theorem dataFrameAnalysis_rejected (b : Nat → U8) (value : StatusRegisters) (nodeData : NodeData F)
    (h : ¬GoodFrame b) : (dataFrameAnalysis b value nodeData).2 = nodeData := by
  unfold GoodFrame at h
  unfold dataFrameAnalysis
  by_cases hh : b 0 = 0x5A#8
  · have hs : checkSum b 12#8 ≠ some 0#8 := fun hs => h ⟨hh, (checkSum_twelve b).mp hs⟩
    simp [hh, hs]
  · simp [hh]

/-- The analysis reads twelve bytes, however many the packet had. -/
theorem goodFrame_congr (b b' : Nat → U8) (h : ∀ j < 12, b j = b' j) : GoodFrame b ↔ GoodFrame b' := by
  have hsum : byteSum b 10 = byteSum b' 10 := by
    apply Finset.sum_congr rfl
    intro k hk
    rw [h k (by have := Finset.mem_range.mp hk; omega)]
  unfold GoodFrame
  rw [h 0 (by omega), h 10 (by omega), h 11 (by omega), hsum]

theorem calculateDeviceId_toNat (b : Nat → U8) :
    (calculateDeviceId b).toNat =
      2 ^ 24 * (b 0).toNat + 2 ^ 16 * (b 1).toNat + 2 ^ 8 * (b 2).toNat + (b 3).toNat := by
  have := (b 0).isLt
  have := (b 1).isLt
  have := (b 2).isLt
  have := (b 3).isLt
  simp only [calculateDeviceId, BitVec.toNat_add, BitVec.toNat_setWidth, BitVec.toNat_shiftLeft,
    Nat.shiftLeft_eq]
  omega

omit [CFloat F] in
/-- The search returns the least matching slot. -/
theorem getDeviceNumber_found (regs : Table) (nodeData : NodeData F) (n : Nat) (hn : n < nodeCount)
    (hid : nodeData.deviceId = idAt regs n) (hleast : ∀ j < n, nodeData.deviceId ≠ idAt regs j) :
    getDeviceNumber regs nodeData = (0#8, { nodeData with deviceNumber := BitVec.ofNat 8 n }) := by
  have hfind : (List.range nodeCount).find? (fun i => nodeData.deviceId == idAt regs i) = some n := by
    rw [List.find?_range_eq_some]
    refine ⟨by simp [hid], by simpa using hn, ?_⟩
    intro j hj
    simpa using hleast j hj
  simp only [getDeviceNumber, hfind]

omit [CFloat F] in
theorem getDeviceNumber_missing (regs : Table) (nodeData : NodeData F)
    (h : ∀ i < nodeCount, nodeData.deviceId ≠ idAt regs i) :
    getDeviceNumber regs nodeData = (1#8, nodeData) := by
  have hfind : (List.range nodeCount).find? (fun i => nodeData.deviceId == idAt regs i) = none := by
    rw [List.find?_eq_none]
    intro i hi
    simpa using h i (List.mem_range.mp hi)
  simp only [getDeviceNumber, hfind]

section SignalWord

/-- The RSSI in dBm that a status byte stands for. -/
def dBm (r : U8) : Int := if 128 ≤ r.toNat then ((r.toNat : Int) - 256).tdiv 2 - 75 else (r.toNat : Int).tdiv 2 - 75

theorem dBm_eq (r : U8) :
    dBm r = if 128 ≤ r.toNat then -((256 - (r.toNat : Int)) / 2) - 75 else (r.toNat : Int) / 2 - 75 := by
  have hr := r.isLt
  have hneg : ((r.toNat : Int) - 256).tdiv 2 = -((256 - (r.toNat : Int)) / 2) := by
    rw [show (r.toNat : Int) - 256 = -(256 - r.toNat) by ring, Int.neg_tdiv, Int.tdiv_eq_ediv_of_nonneg (by omega)]
  rw [dBm, hneg, Int.tdiv_eq_ediv_of_nonneg (by omega)]

theorem dBm_bounds (r : U8) : -139 ≤ dBm r ∧ dBm r ≤ -12 := by
  have hr := r.isLt
  rw [dBm_eq]
  split <;> omega

theorem toInt_ofInt_of_fits (z : Int) (hlo : -128 ≤ z) (hhi : z < 128) : (BitVec.ofInt 8 z).toInt = z := by
  rw [BitVec.toInt_ofInt]
  exact Int.bmod_eq_of_le (by omega) (by omega)

omit [CFloat F]

variable (value : StatusRegisters) (nodeData : NodeData F)

/-- The field holds the RSSI reduced to eight bits; the conversions on the way lose nothing. -/
theorem calculateSignalStrength_rssi :
    (calculateSignalStrength value nodeData).rssiValue = BitVec.ofInt 8 (dBm value.rssi) := by
  have hr := value.rssi.isLt
  have hbounds := dBm_bounds value.rssi
  by_cases hhigh : 128 ≤ value.rssi.toNat
  · rw [dBm, if_pos hhigh] at hbounds
    simp only [calculateSignalStrength, ge_iff_le, if_pos hhigh]
    rw [toInt_ofInt_of_fits ((value.rssi.toNat : Int) - 256) (by omega) (by omega),
      toInt_ofInt_of_fits _ (by omega) (by omega), dBm, if_pos hhigh]
  · simp only [calculateSignalStrength, ge_iff_le, if_neg hhigh, dBm]

/-- The signal register: the RSSI reduced to eight bits, and the link quality. -/
theorem signalWord_toNat :
    (signalWord nodeData).toNat = 256 * nodeData.rssiValue.toNat + nodeData.lqiValue.toNat := by
  have hrssi := nodeData.rssiValue.isLt
  have hlqi := nodeData.lqiValue.isLt
  simp only [signalWord, BitVec.toNat_setWidth, BitVec.toNat_add, BitVec.toNat_shiftLeft, Nat.shiftLeft_eq,
    BitVec.toNat_signExtend]
  split <;> omega

/-- The two bytes of the signal register do not disturb each other. -/
theorem signalWord_bytes : (signalWord nodeData >>> 8).setWidth 8 = nodeData.rssiValue ∧
    (signalWord nodeData).setWidth 8 = nodeData.lqiValue := by
  have hrssi := nodeData.rssiValue.isLt
  have hlqi := nodeData.lqiValue.isLt
  have hword := signalWord_toNat nodeData
  constructor
  · apply BitVec.eq_of_toNat_eq
    rw [BitVec.toNat_setWidth, BitVec.toNat_ushiftRight, hword, Nat.shiftRight_eq_div_pow]
    omega
  · apply BitVec.eq_of_toNat_eq
    rw [BitVec.toNat_setWidth, hword]
    omega

theorem signalWord_status : (signalWord (calculateSignalStrength value nodeData)).toNat =
    256 * (dBm value.rssi % 256).toNat + value.lqi.toNat % 128 := by
  have hlqi : (calculateSignalStrength value nodeData).lqiValue.toNat = value.lqi.toNat % 128 := by
    have hmask := Nat.and_two_pow_sub_one_eq_mod value.lqi.toNat 7
    simpa [calculateSignalStrength] using hmask
  rw [signalWord_toNat, calculateSignalStrength_rssi, hlqi, BitVec.toNat_ofInt]
  rfl

end SignalWord

section StoreFrame

variable (t : U32) (nodeData : NodeData F) (regs : Table) (n : Nat)

/-- The writes of one frame for node `n`, in program order. -/
def frameWrites : List (Nat × U16) :=
  [(temperatureFirstAddress + n, temperatureFormat nodeData.temperatureValue),
    (voltageFirstAddress + n, toI16 nodeData.voltageValue),
    (nodeStatusFirstAddress + 2 + 3 * n, signalWord nodeData),
    (launchNumberFiratAddress + 2 * n, low (launchAt regs n + 1#32)),
    (launchNumberFiratAddress + 1 + 2 * n, high (launchAt regs n + 1#32)),
    (receivingMomentFiratAddress + 2 * n, low t),
    (receivingMomentFiratAddress + 1 + 2 * n, high t)]

theorem frameWrites_cells :
    (frameWrites t nodeData regs n).map Prod.fst =
      [0x008 + n, 0x108 + n, 0x40A + 3 * n, 0x208 + 2 * n, 0x209 + 2 * n, 0xA08 + 2 * n, 0xA09 + 2 * n] :=
  rfl

/-- No store of the frame touches a counter before it is read. -/
theorem storeFrame_eq (hv : nodeData.isDataValid = true) (hn : nodeData.deviceNumber.toNat = n) :
    storeFrame t nodeData regs = assign regs (frameWrites t nodeData regs n) := by
  have hlt := nodeData.deviceNumber.isLt
  have hlaunch : launchAt (saveSignalStrength nodeData (saveVoltage nodeData (saveTemperature nodeData regs))) n =
      launchAt regs n := by
    simp only [launchAt, saveSignalStrength, saveVoltage, saveTemperature, hv, if_true, hn,
      temperatureFirstAddress, voltageFirstAddress, nodeStatusFirstAddress, launchNumberFiratAddress]
    rw [assign_of_not_mem, assign_of_not_mem, assign_of_not_mem, assign_of_not_mem, assign_of_not_mem,
      assign_of_not_mem] <;> simp <;> omega
  simp only [storeFrame, saveReceiveTime, saveLaunchNumber, hv, if_true, hn, hlaunch]
  simp only [saveSignalStrength, saveVoltage, saveTemperature, hv, if_true, hn, frameWrites, assign_cons,
    assign_nil]

variable (hv : nodeData.isDataValid = true) (hn : nodeData.deviceNumber.toNat = n)

include hv hn

/-- Frame condition: a stored frame changes nothing but its node's registers. -/
theorem storeFrame_other (a : Nat) (ha : a ∉ nodeRegisters n) : storeFrame t nodeData regs a = regs a := by
  rw [storeFrame_eq t nodeData regs n hv hn]
  apply assign_of_not_mem
  rw [frameWrites_cells]
  rw [mem_nodeRegisters] at ha
  simp only [List.mem_cons, List.not_mem_nil, or_false]
  omega

/-- The seven values a stored frame leaves behind. -/
theorem storeFrame_values :
    storeFrame t nodeData regs (0x008 + n) = temperatureFormat nodeData.temperatureValue ∧
    storeFrame t nodeData regs (0x108 + n) = toI16 nodeData.voltageValue ∧
    storeFrame t nodeData regs (0x40A + 3 * n) = signalWord nodeData ∧
    launchAt (storeFrame t nodeData regs) n = launchAt regs n + 1#32 ∧
    receiveTimeAt (storeFrame t nodeData regs) n = t := by
  have hlt := nodeData.deviceNumber.isLt
  have hnodup : ((frameWrites t nodeData regs n).map Prod.fst).Nodup := by
    rw [frameWrites_cells]
    simp only [List.nodup_cons, List.mem_cons, List.not_mem_nil, or_false, List.nodup_nil, and_true,
      not_or, not_false_eq_true]
    omega
  have hat : ∀ a v, (a, v) ∈ frameWrites t nodeData regs n → storeFrame t nodeData regs a = v := by
    intro a v h
    rw [storeFrame_eq t nodeData regs n hv hn]
    exact assign_of_mem regs _ hnodup a v h
  refine ⟨hat _ _ (by simp [frameWrites, temperatureFirstAddress]),
    hat _ _ (by simp [frameWrites, voltageFirstAddress]),
    hat _ _ (by simp [frameWrites, nodeStatusFirstAddress]), ?_, ?_⟩
  · rw [launchAt, hat _ (low (launchAt regs n + 1#32)) (by simp [frameWrites]),
      hat _ (high (launchAt regs n + 1#32)) (by simp [frameWrites]), join_low_high]
  · rw [receiveTimeAt, hat _ (low t) (by simp [frameWrites]), hat _ (high t) (by simp [frameWrites]),
      join_low_high]

end StoreFrame

end DataReceiveRelay.DataFrame
