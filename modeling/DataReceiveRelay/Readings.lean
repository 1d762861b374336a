import DataReceiveRelay.DataFrame

/-!
# What the measurement registers mean

A master decodes the temperature register as tenths of a degree, with 2000 added
for readings that are not positive, and the signal register as two bytes, the
RSSI in dBm and the link quality. Here the values are exact: floating point is
replaced by rational arithmetic, so that what is lost is lost by the code. The
square root of a rational need not be one; it stays a parameter.
-/

namespace DataReceiveRelay.Readings

open Words Runs Registers Radio DataFrame

/-- Conversion to an integer type drops the fraction. -/
def truncate (x : ℚ) : Int := if 0 ≤ x then ⌊x⌋ else ⌈x⌉

/-- Rational arithmetic without rounding; exponents are whole numbers. -/
@[reducible] def exactArithmetic (sqrt : ℚ → ℚ) : CFloat ℚ where
  ofInt z := z
  lit m e := m / 10 ^ e
  sqrt := sqrt
  pow x y := x ^ ⌊y⌋
  narrow x := x
  isPos x := decide (0 < x)
  toU16 x := BitVec.ofInt 16 (truncate x)
  toI16 x := BitVec.ofInt 16 (truncate x)

/-- A non-negative value that fits is converted to its integer part. -/
theorem ofInt_truncate_toNat (x : ℚ) (hx : 0 ≤ x) (hlt : x < 2 ^ 16) :
    ((BitVec.ofInt 16 (truncate x)).toNat : Int) = ⌊x⌋ := by
  have hlo : 0 ≤ ⌊x⌋ := Int.floor_nonneg.mpr hx
  have hhi : ⌊x⌋ < 2 ^ 16 := Int.floor_lt.mpr (by exact_mod_cast hlt)
  rw [truncate, if_pos hx, BitVec.toNat_ofInt]
  omega

section Temperature

/-- The comments of `SaveTemperature`: tenths below 2000, negative tenths from there on. -/
def decodeTemperature (r : U16) : ℚ :=
  if r.toNat < 2000 then (r.toNat : ℚ) / 10 else -((r.toNat : ℚ) - 2000) / 10

/-- Closer than a tenth of a degree, and not on the other side of zero. -/
def Accurate (t decoded : ℚ) : Prop :=
  |decoded - t| < 1 / 10 ∧ (0 < t → 0 ≤ decoded) ∧ (t < 0 → decoded ≤ 0)

variable (sqrt : ℚ → ℚ) (t : ℚ)

theorem temperatureFormat_exact : @temperatureFormat ℚ (exactArithmetic sqrt) t =
    if 0 < t then BitVec.ofInt 16 (truncate (t * 10)) else 2000#16 + BitVec.ofInt 16 (truncate (-t)) * 10#16 := by
  have hlit : ((10 : Nat) / 10 ^ 0 : ℚ) = 10 := by norm_num
  have hunfold : @temperatureFormat ℚ (exactArithmetic sqrt) t =
      if decide (0 < t) = true then BitVec.ofInt 16 (truncate (t * ((10 : Nat) / 10 ^ 0 : ℚ)))
      else 2000#16 + BitVec.ofInt 16 (truncate (-t)) * 10#16 := rfl
  rw [hunfold, hlit]
  simp only [decide_eq_true_eq]

/-- A positive reading keeps its first decimal. -/
theorem decode_positive (hpos : 0 < t) (hhi : t ≤ 1999 / 10) :
    decodeTemperature (@temperatureFormat ℚ (exactArithmetic sqrt) t) = ⌊t * 10⌋ / 10 := by
  have hnat := ofInt_truncate_toNat (t * 10) (by linarith) (by linarith)
  have hlt : ⌊t * 10⌋ < 2000 := Int.floor_lt.mpr (by push_cast; linarith)
  rw [temperatureFormat_exact, if_pos hpos, decodeTemperature, if_pos (by omega), ← Int.cast_natCast, hnat]

/-- Any other reading keeps whole degrees only. -/
theorem decode_nonpositive (hneg : ¬0 < t) (hlo : -50 ≤ t) :
    decodeTemperature (@temperatureFormat ℚ (exactArithmetic sqrt) t) = -⌊-t⌋ := by
  have hnat := ofInt_truncate_toNat (-t) (by linarith) (by linarith)
  have hnonneg : 0 ≤ ⌊-t⌋ := Int.floor_nonneg.mpr (by linarith)
  have hfloor : ⌊-t⌋ < 51 := Int.floor_lt.mpr (by push_cast; linarith)
  have hr : ((2000#16 + BitVec.ofInt 16 (truncate (-t)) * 10#16).toNat : Int) = 2000 + 10 * ⌊-t⌋ := by
    simp only [BitVec.toNat_add, BitVec.toNat_mul, BitVec.toNat_ofNat]
    omega
  rw [temperatureFormat_exact, if_neg hneg, decodeTemperature, if_neg (by omega), ← Int.cast_natCast, hr]
  push_cast
  ring

theorem accurate_positive (hpos : 0 < t) (hhi : t ≤ 1999 / 10) :
    Accurate t (decodeTemperature (@temperatureFormat ℚ (exactArithmetic sqrt) t)) := by
  have hle := Int.floor_le (t * 10)
  have hlt := Int.lt_floor_add_one (t * 10)
  have hnonneg : (0 : ℚ) ≤ ⌊t * 10⌋ := by exact_mod_cast Int.floor_nonneg.mpr (by linarith : 0 ≤ t * 10)
  rw [decode_positive sqrt t hpos hhi]
  refine ⟨abs_lt.mpr ⟨by linarith, by linarith⟩, fun _ => by linarith, fun h => by linarith⟩

/-- What is lost of a reading that is not positive is its fraction. -/
theorem accurate_nonpositive (hneg : ¬0 < t) (hlo : -50 ≤ t) :
    Accurate t (decodeTemperature (@temperatureFormat ℚ (exactArithmetic sqrt) t)) ↔ -t - ⌊-t⌋ < 1 / 10 := by
  have hle := Int.floor_le (-t)
  have hnonneg : (0 : ℚ) ≤ ⌊-t⌋ := by exact_mod_cast Int.floor_nonneg.mpr (by linarith : 0 ≤ -t)
  rw [decode_nonpositive sqrt t hneg hlo, Accurate, abs_lt]
  constructor
  · rintro ⟨⟨-, h⟩, -⟩
    linarith
  · intro h
    exact ⟨⟨by linarith, by linarith⟩, fun hpos => absurd hpos hneg, fun _ => by linarith⟩

theorem saveTemperature_register (nodeData : NodeData ℚ) (regs : Table) (hv : nodeData.isDataValid = true) :
    @saveTemperature ℚ (exactArithmetic sqrt) nodeData regs (0x008 + nodeData.deviceNumber.toNat) =
      @temperatureFormat ℚ (exactArithmetic sqrt) nodeData.temperatureValue := by
  unfold saveTemperature
  rw [if_pos hv]
  exact Function.update_self _ _ _

/-- The register of a valid node is accurate exactly for positive readings and for those less than a tenth of a
degree below a whole number of degrees. -/
theorem saveTemperature_accurate_iff (nodeData : NodeData ℚ) (regs : Table) (hv : nodeData.isDataValid = true)
    (hlo : -50 ≤ nodeData.temperatureValue) (hhi : nodeData.temperatureValue ≤ 1999 / 10) :
    Accurate nodeData.temperatureValue (decodeTemperature
        (@saveTemperature ℚ (exactArithmetic sqrt) nodeData regs (0x008 + nodeData.deviceNumber.toNat))) ↔
      0 < nodeData.temperatureValue ∨ -nodeData.temperatureValue - ⌊-nodeData.temperatureValue⌋ < 1 / 10 := by
  rw [saveTemperature_register sqrt nodeData regs hv]
  by_cases hpos : 0 < nodeData.temperatureValue
  · exact iff_of_true (accurate_positive sqrt _ hpos hhi) (.inl hpos)
  · rw [accurate_nonpositive sqrt _ hpos hlo, or_iff_right hpos]

/-- A valid node at the given temperature. -/
def nodeAt (t : ℚ) : NodeData ℚ where
  isDataValid := true
  deviceId := 0#32
  temperatureValue := t
  voltageValue := 0
  deviceNumber := 0#8
  rssiValue := 0#8
  lqiValue := 0#8

/-- 21.57 degrees are stored as 21.5. -/
theorem saveTemperature_accurate_room : Accurate (2157 / 100) (decodeTemperature
    (@saveTemperature ℚ (exactArithmetic id) (nodeAt (2157 / 100)) zeroTable 0x008)) :=
  (saveTemperature_accurate_iff id (nodeAt (2157 / 100)) zeroTable rfl (by norm_num [nodeAt])
    (by norm_num [nodeAt])).mpr (.inl (by norm_num [nodeAt]))

/-- Half a degree of frost is stored as zero. -/
theorem saveTemperature_frost : ¬Accurate (-1 / 2) (decodeTemperature
    (@saveTemperature ℚ (exactArithmetic id) (nodeAt (-1 / 2)) zeroTable 0x008)) := by
  have hregister : @saveTemperature ℚ (exactArithmetic id) (nodeAt (-1 / 2)) zeroTable 0x008 =
      @temperatureFormat ℚ (exactArithmetic id) (-1 / 2) :=
    saveTemperature_register id (nodeAt (-1 / 2)) zeroTable rfl
  rw [hregister, accurate_nonpositive id (-1 / 2) (by norm_num) (by norm_num)]
  norm_num

end Temperature

section Conversions

/-- What `CalculateTemperature` takes the square root of. -/
def radicand {F : Type} [CFloat F] (data : Nat → U8) : F :=
  CFloat.pow (-CFloat.lit 5506 3) (CFloat.lit 2 0) + CFloat.lit 4 0 * CFloat.lit 176 5 *
    (CFloat.lit 8706 1 - CFloat.narrow (CFloat.ofInt (beWord data).toNat * (CFloat.lit 2500 0 / CFloat.lit 1023 0)))

theorem calculateTemperature_radicand {F : Type} [CFloat F] (data : Nat → U8) :
    (calculateTemperature data : F) = CFloat.narrow ((CFloat.lit 5506 3 - CFloat.sqrt (radicand data)) /
      (CFloat.lit 2 0 * -CFloat.lit 176 5) + CFloat.lit 30 0) := rfl

variable (sqrt : ℚ → ℚ) (data : Nat → U8)

theorem radicand_exact : @radicand ℚ (exactArithmetic sqrt) data =
    (5506 / 1000) ^ 2 + 4 * (176 / 100000) * (8706 / 10 - (beWord data).toNat * 2500 / 1023) := by
  have hunfold : @radicand ℚ (exactArithmetic sqrt) data = (-((5506 : Nat) / 10 ^ 3 : ℚ)) ^ ⌊((2 : Nat) / 10 ^ 0 : ℚ)⌋ +
      ((4 : Nat) / 10 ^ 0 : ℚ) * ((176 : Nat) / 10 ^ 5 : ℚ) * (((8706 : Nat) / 10 ^ 1 : ℚ) -
        ((beWord data).toNat : Int) * (((2500 : Nat) / 10 ^ 0 : ℚ) / ((1023 : Nat) / 10 ^ 0 : ℚ))) := rfl
  have htwo : ⌊((2 : Nat) / 10 ^ 0 : ℚ)⌋ = 2 := by norm_num
  rw [hunfold, htwo]
  push_cast
  ring

theorem temperature_exact : @calculateTemperature ℚ (exactArithmetic sqrt) data =
    (sqrt (@radicand ℚ (exactArithmetic sqrt) data) - 5506 / 1000) * (100000 / 352) + 30 := by
  have hunfold := @calculateTemperature_radicand ℚ (exactArithmetic sqrt) data
  rw [hunfold]
  have hvalues : (((5506 : Nat) / 10 ^ 3 : ℚ) - sqrt (@radicand ℚ (exactArithmetic sqrt) data)) /
      (((2 : Nat) / 10 ^ 0 : ℚ) * -((176 : Nat) / 10 ^ 5 : ℚ)) + ((30 : Nat) / 10 ^ 0 : ℚ) =
      (sqrt (@radicand ℚ (exactArithmetic sqrt) data) - 5506 / 1000) * (100000 / 352) + 30 := by
    push_cast
    ring
  exact hvalues

theorem voltage_exact : @calculateVolatge ℚ (exactArithmetic sqrt) data = (beWord data).toNat * 5000 / 1023 := by
  have hunfold : @calculateVolatge ℚ (exactArithmetic sqrt) data = ((beWord data).toNat : Int) *
      (((2500 : Nat) / 10 ^ 0 : ℚ) / ((1023 : Nat) / 10 ^ 0 : ℚ)) * ((2 : Nat) / 10 ^ 0 : ℚ) := rfl
  rw [hunfold]
  push_cast
  ring

theorem radicand_nonneg_iff : 0 ≤ @radicand ℚ (exactArithmetic sqrt) data ↔ (beWord data).toNat ≤ 2118 := by
  rw [radicand_exact]
  constructor
  · intro h
    by_contra hlt
    have hword : (2119 : ℚ) ≤ (beWord data).toNat := by exact_mod_cast Nat.lt_of_not_le hlt
    linarith
  · intro h
    have hword : ((beWord data).toNat : ℚ) ≤ 2118 := by exact_mod_cast h
    linarith

theorem voltage_lt_iff : @calculateVolatge ℚ (exactArithmetic sqrt) data < 32768 ↔ (beWord data).toNat ≤ 6704 := by
  rw [voltage_exact]
  constructor
  · intro h
    by_contra hlt
    have hword : (6705 : ℚ) ≤ (beWord data).toNat := by exact_mod_cast Nat.lt_of_not_le hlt
    linarith
  · intro h
    have hword : ((beWord data).toNat : ℚ) ≤ 6704 := by exact_mod_cast h
    linarith

end Conversions

section Frames

variable (sqrt : ℚ → ℚ) (b : Nat → U8) (value : StatusRegisters) (nodeData : NodeData ℚ)

/-- The temperature word of a frame, and its voltage word. -/
def temperatureWord : Nat := (beWord fun i => b (6 + i)).toNat

def voltageWord : Nat := (beWord fun i => b (8 + i)).toNat

/-- An accepted frame leaves its converted voltage in the node structure. -/
theorem accepted_voltage (h : (@dataFrameAnalysis ℚ (exactArithmetic sqrt) b value nodeData).1 = 0#8) :
    (@dataFrameAnalysis ℚ (exactArithmetic sqrt) b value nodeData).2.voltageValue =
      @calculateVolatge ℚ (exactArithmetic sqrt) fun i => b (8 + i) := by
  obtain ⟨hheader, hsum⟩ := (@dataFrameAnalysis_eq_zero_iff ℚ (exactArithmetic sqrt) b value nodeData).mp h
  unfold dataFrameAnalysis
  rw [if_pos hheader, if_pos ((checkSum_twelve b).mpr hsum)]

theorem accepted_temperature (h : (@dataFrameAnalysis ℚ (exactArithmetic sqrt) b value nodeData).1 = 0#8) :
    (@dataFrameAnalysis ℚ (exactArithmetic sqrt) b value nodeData).2.temperatureValue =
      @calculateTemperature ℚ (exactArithmetic sqrt) fun i => b (6 + i) := by
  obtain ⟨hheader, hsum⟩ := (@dataFrameAnalysis_eq_zero_iff ℚ (exactArithmetic sqrt) b value nodeData).mp h
  unfold dataFrameAnalysis
  rw [if_pos hheader, if_pos ((checkSum_twelve b).mpr hsum)]

/-- The conversions of an accepted frame are defined exactly when both words are within the range the formulas
allow; the frame format does not restrict them. -/
theorem conversions_defined_iff (h : (@dataFrameAnalysis ℚ (exactArithmetic sqrt) b value nodeData).1 = 0#8) :
    (0 ≤ @radicand ℚ (exactArithmetic sqrt) (fun i => b (6 + i)) ∧
        (@dataFrameAnalysis ℚ (exactArithmetic sqrt) b value nodeData).2.voltageValue < 32768) ↔
      temperatureWord b ≤ 2118 ∧ voltageWord b ≤ 6704 := by
  rw [accepted_voltage sqrt b value nodeData h, radicand_nonneg_iff, voltage_lt_iff]
  rfl

/-- Where they are, the reading keeps within what the casts of `SaveTemperature` and `SaveVoltage` can hold. -/
theorem casts_in_range (hroot : ∀ x, 0 ≤ x → 0 ≤ sqrt x ∧ sqrt x * sqrt x ≤ x)
    (h : (@dataFrameAnalysis ℚ (exactArithmetic sqrt) b value nodeData).1 = 0#8) (ht : temperatureWord b ≤ 2118)
    (hv : voltageWord b ≤ 6704) :
    let node := (@dataFrameAnalysis ℚ (exactArithmetic sqrt) b value nodeData).2
    (0 < node.temperatureValue → node.temperatureValue * 10 < 2 ^ 16) ∧
      (node.temperatureValue ≤ 0 → -node.temperatureValue < 2 ^ 15) ∧
      0 ≤ node.voltageValue ∧ node.voltageValue < 2 ^ 15 := by
  intro node
  have htemperature : node.temperatureValue = _ := accepted_temperature sqrt b value nodeData h
  have hvoltage : node.voltageValue = _ := accepted_voltage sqrt b value nodeData h
  obtain ⟨hpos, hsquare⟩ := hroot _ ((radicand_nonneg_iff sqrt fun i => b (6 + i)).mpr ht)
  rw [temperature_exact] at htemperature
  have hradicand : @radicand ℚ (exactArithmetic sqrt) (fun i => b (6 + i)) ≤ 37 := by
    rw [radicand_exact]
    have hword : (0 : ℚ) ≤ (beWord fun i => b (6 + i)).toNat := Nat.cast_nonneg _
    linarith
  generalize sqrt (@radicand ℚ (exactArithmetic sqrt) fun i => b (6 + i)) = root at *
  have hroot7 : root < 7 := by nlinarith
  refine ⟨fun _ => ?_, fun _ => ?_, ?_, ?_⟩
  · rw [htemperature]
    linarith
  · rw [htemperature]
    linarith
  · rw [hvoltage, voltage_exact]
    positivity
  · rw [hvoltage]
    have hlt := (voltage_lt_iff sqrt fun i => b (8 + i)).mpr hv
    linarith

end Frames

/-- A frame with the given words and a right sum. -/
def frameOf (bytes : List U8) : Nat → U8 := fun i => bytes.getD i 0#8

def tenBitFrame : Nat → U8 :=
  frameOf [0x5A#8, 0#8, 0#8, 0#8, 0#8, 1#8, 1#8, 0#8, 2#8, 0#8, 0#8, 0x5E#8]

def fullScaleFrame : Nat → U8 :=
  frameOf [0x5A#8, 0#8, 0#8, 0#8, 0#8, 0#8, 0xFF#8, 0xFF#8, 0xFF#8, 0xFF#8, 0x04#8, 0x56#8]

/-- Ten-bit readings are within range. -/
theorem conversions_defined_tenBit : 0 ≤ @radicand ℚ (exactArithmetic id) (fun i => tenBitFrame (6 + i)) ∧
    (@dataFrameAnalysis ℚ (exactArithmetic id) tenBitFrame ⟨0#8, 0#8⟩ (nodeAt 0)).2.voltageValue < 32768 :=
  (conversions_defined_iff id tenBitFrame ⟨0#8, 0#8⟩ (nodeAt 0)
    ((@dataFrameAnalysis_eq_zero_iff ℚ (exactArithmetic id) _ _ _).mpr (by decide))).mpr (by decide)

/-- A frame of all ones is accepted, its radicand is negative and its voltage does not fit. -/
theorem conversions_undefined_fullScale :
    (@dataFrameAnalysis ℚ (exactArithmetic id) fullScaleFrame ⟨0#8, 0#8⟩ (nodeAt 0)).1 = 0#8 ∧
      @radicand ℚ (exactArithmetic id) (fun i => fullScaleFrame (6 + i)) < 0 ∧
      32768 ≤ (@dataFrameAnalysis ℚ (exactArithmetic id) fullScaleFrame ⟨0#8, 0#8⟩ (nodeAt 0)).2.voltageValue := by
  have haccepted : (@dataFrameAnalysis ℚ (exactArithmetic id) fullScaleFrame ⟨0#8, 0#8⟩ (nodeAt 0)).1 = 0#8 :=
    (@dataFrameAnalysis_eq_zero_iff ℚ (exactArithmetic id) _ _ _).mpr (by decide)
  refine ⟨haccepted, ?_, ?_⟩
  · rw [← not_le, radicand_nonneg_iff]
    decide
  · rw [accepted_voltage id _ _ _ haccepted, ← not_lt, voltage_lt_iff]
    decide

section SignalStrength

variable {F : Type} (value : StatusRegisters) (nodeData : NodeData F) (regs : Table)

/-- The weakest signals fall below -128 dBm and come out positive. -/
theorem rssi_exact_iff :
    (calculateSignalStrength value nodeData).rssiValue.toInt = dBm value.rssi ↔
      value.rssi.toNat < 128 ∨ 149 ≤ value.rssi.toNat := by
  have hr := value.rssi.isLt
  have hbounds := dBm_bounds value.rssi
  have hvalue := dBm_eq value.rssi
  rw [calculateSignalStrength_rssi]
  by_cases hfits : -128 ≤ dBm value.rssi
  · refine iff_of_true (toInt_ofInt_of_fits _ hfits (by omega)) ?_
    split at hvalue <;> omega
  · refine iff_of_false ?_ ?_
    · have hle := BitVec.le_toInt (BitVec.ofInt 8 (dBm value.rssi))
      omega
    · split at hvalue <;> omega

/-- The signal register of a node after the packet: RSSI and link quality as the status bytes say, and no other
register touched. -/
def SignalFaithful (p : Packet) (n : Nat) (before after : Table) : Prop :=
  ((after (0x40A + 3 * n) >>> 8).setWidth 8).toInt = dBm p.rssi ∧
    (after (0x40A + 3 * n)).setWidth 8 = p.lqi &&& 0x7F#8 ∧ ∀ a, a ≠ 0x40A + 3 * n → after a = before a

/-- The bytes of a taken packet are stored faithfully exactly when its RSSI byte is not between 128 and 148. -/
theorem signalStrength_faithful_iff (poll : Poll) (rx : Nat → U8) (length : U8) (status : StatusRegisters)
    (hd : poll.delivers length) (hle : poll.packet.lengthByte ≤ length) (hv : nodeData.isDataValid = true) :
    SignalFaithful poll.packet nodeData.deviceNumber.toNat regs
        (saveSignalStrength (calculateSignalStrength (cc1101ReceivePacket poll rx length status).status nodeData) regs) ↔
      poll.packet.rssi.toNat < 128 ∨ 149 ≤ poll.packet.rssi.toNat := by
  have hstatus : (cc1101ReceivePacket poll rx length status).status = ⟨poll.packet.rssi, poll.packet.lqi⟩ := by
    rw [receive_accepted poll rx length status hd hle]
  rw [hstatus]
  have hexact := rssi_exact_iff ⟨poll.packet.rssi, poll.packet.lqi⟩ nodeData
  obtain ⟨hhigh, hlow⟩ := signalWord_bytes (calculateSignalStrength ⟨poll.packet.rssi, poll.packet.lqi⟩ nodeData)
  have hregister : saveSignalStrength (calculateSignalStrength ⟨poll.packet.rssi, poll.packet.lqi⟩ nodeData) regs =
      Function.update regs (0x40A + 3 * nodeData.deviceNumber.toNat)
        (signalWord (calculateSignalStrength ⟨poll.packet.rssi, poll.packet.lqi⟩ nodeData)) := by
    unfold saveSignalStrength
    exact if_pos hv
  rw [SignalFaithful, hregister, Function.update_self, hhigh, hlow, ← hexact]
  constructor
  · intro h
    exact h.1
  · intro h
    exact ⟨h, rfl, fun a ha => Function.update_of_ne ha _ _⟩

/-- A packet that the driver takes, with the given status bytes. -/
def statusPoll (rssi lqi : U8) : Poll := ⟨0, 1#8, ⟨[], rssi, lqi, by decide⟩⟩

/-- The table after a packet with the given status bytes, stored for node 0. -/
def storedStatus (rssi lqi : U8) : Table :=
  saveSignalStrength (calculateSignalStrength
    (cc1101ReceivePacket (statusPoll rssi lqi) (fun _ => 0#8) 12#8 ⟨0#8, 0#8⟩).status (nodeAt 0)) zeroTable

/-- A byte of 200 stands for -103 dBm, and that is what is stored. -/
theorem signalStrength_faithful_medium :
    SignalFaithful (statusPoll 200#8 0x85#8).packet 0 zeroTable (storedStatus 200#8 0x85#8) :=
  (signalStrength_faithful_iff (nodeAt 0) zeroTable (statusPoll 200#8 0x85#8) (fun _ => 0#8) 12#8 ⟨0#8, 0#8⟩
    (by decide) (by decide) rfl).mpr (by decide)

/-- A byte of 128 stands for -139 dBm; the register says 117. -/
theorem signalStrength_weakest : dBm 128#8 = -139 ∧
    ((storedStatus 128#8 0x85#8 0x40A >>> 8).setWidth 8).toInt = 117 ∧
    ¬SignalFaithful (statusPoll 128#8 0x85#8).packet 0 zeroTable (storedStatus 128#8 0x85#8) := by
  have hdBm : dBm 128#8 = -139 := by decide
  have hstored : ((storedStatus 128#8 0x85#8 0x40A >>> 8).setWidth 8).toInt = 117 := by decide
  refine ⟨hdBm, hstored, ?_⟩
  intro h
  have hsame := hstored.symm.trans (h.1.trans hdBm)
  exact absurd hsame (by decide)

end SignalStrength

end DataReceiveRelay.Readings
