import DataReceiveRelay.Receive

/-!
# Reads of the node structure

`nodeData` lives on the stack of the receive thread and only its valid flag is
initialised. `DataFrameAnalysis` assigns the value fields when it accepts a frame
and leaves them alone otherwise; the loop prints them either way. Beside the loop
runs a record of which fields have been assigned and, for every read of a field,
whether it was assigned by then. The record is never read by the loop. A run ends
where the receive buffer overruns, as everywhere in this model.
-/

namespace DataReceiveRelay.NodeDataReads

open Words Runs Registers Radio DataFrame Receive

/-- The value fields of `NodeDataStruct`. -/
inductive Field where
  | deviceId | temperatureValue | voltageValue | rssiValue | lqiValue
  deriving DecidableEq, Repr

/-- The fields in the order in which they are printed. -/
def allFields : List Field := [.deviceId, .temperatureValue, .voltageValue, .rssiValue, .lqiValue]

/-- The reads behind one analysis: the printing, the search for the ID, and the structure passed by value to the
five stores. -/
def branchReads (ret found : U8) : List Field :=
  allFields ++
    if ret = 0#8 then .deviceId :: (if found = 0#8 then (List.replicate 5 allFields).flatten else []) else []

structure Tracked (F : Type) where
  loop : Loop F
  assigned : Field → Bool
  reads : List (Field × Bool)

variable {F : Type} [CFloat F]

/-- An accepted analysis assigns every value field. -/
def assignedAfter (ret : U8) (assigned : Field → Bool) : Field → Bool :=
  if ret = 0#8 then fun _ => true else assigned

/-- One pass of the loop with its record. -/
def trackedPass (t : Tracked F) (i : Pass) : Tracked F :=
  let r := cc1101ReceivePacket i.poll t.loop.rxBuffer t.loop.leng t.loop.status
  if t.loop.overflow = false ∧ (∀ count ∈ r.brust, count.toNat ≤ rxBufferSize) ∧ r.ret ≠ 0#8 then
    let (ret, nodeData) := dataFrameAnalysis r.rxBuffer r.status t.loop.nodeData
    let assigned := assignedAfter ret t.assigned
    let (found, _) := getDeviceNumber t.loop.regs nodeData
    { loop := pass t.loop i
      assigned := assigned
      reads := t.reads ++ (branchReads ret found).map fun f => (f, assigned f) }
  else { t with loop := pass t.loop i }

/-- Power-up: nothing assigned, nothing read. -/
def start (stack : NodeData F) (regs : Table) : Tracked F := ⟨powerUp stack regs, fun _ => false, []⟩

theorem trackedPass_loop (t : Tracked F) (i : Pass) : (trackedPass t i).loop = pass t.loop i := by
  unfold trackedPass
  dsimp only
  split <;> rfl

/-- The record does not disturb the loop. -/
theorem run_loop (t : Tracked F) (passes : List Pass) :
    (run trackedPass t passes).loop = run pass t.loop passes := by
  induction passes generalizing t with
  | nil => rfl
  | cons i passes ih => rw [run_cons, run_cons, ih, trackedPass_loop]

section Fields

/-- The values of all fields. -/
def valuesOf (nodeData : NodeData F) : U32 × F × F × U8 × U8 :=
  (nodeData.deviceId, nodeData.temperatureValue, nodeData.voltageValue, nodeData.rssiValue, nodeData.lqiValue)

/-- What `assignedAfter` records: an accepted frame replaces every value, whatever was there before, and any other
leaves them all. -/
theorem dataFrameAnalysis_values (b : Nat → U8) (value : StatusRegisters) (nodeData nodeData' : NodeData F) :
    ((dataFrameAnalysis b value nodeData).1 = 0#8 →
      valuesOf (dataFrameAnalysis b value nodeData).2 = valuesOf (dataFrameAnalysis b value nodeData').2) ∧
    ((dataFrameAnalysis b value nodeData).1 ≠ 0#8 →
      valuesOf (dataFrameAnalysis b value nodeData).2 = valuesOf nodeData) := by
  rw [ne_eq, dataFrameAnalysis_eq_zero_iff]
  constructor
  · rintro ⟨hheader, hsum⟩
    have hcheck := (checkSum_twelve b).mpr hsum
    simp only [dataFrameAnalysis, if_pos hheader, if_pos hcheck]
    rfl
  · intro h
    rw [dataFrameAnalysis_rejected b value nodeData h]

end Fields

section Steps

variable (t : Tracked F) (i : Pass)

/-- The pass gets as far as the analysis: the packet is taken, fits the buffer and has a good CRC. -/
def Analyses (s : Loop F) (i : Pass) : Prop :=
  s.overflow = false ∧ i.poll.delivers s.leng ∧ i.poll.packet.lengthByte ≤ s.leng ∧
    i.poll.packet.payload.length ≤ rxBufferSize ∧ i.poll.packet.crcGood = true

/-- The code of the analysis on a packet that is taken. -/
def analysisCode (s : Loop F) (i : Pass) : U8 :=
  (dataFrameAnalysis (overlay i.poll.packet.payload s.rxBuffer) ⟨i.poll.packet.rssi, i.poll.packet.lqi⟩ s.nodeData).1

/-- The code of the search behind it. -/
def searchCode (s : Loop F) (i : Pass) : U8 :=
  (getDeviceNumber s.regs
    (dataFrameAnalysis (overlay i.poll.packet.payload s.rxBuffer) ⟨i.poll.packet.rssi, i.poll.packet.lqi⟩ s.nodeData).2).1

theorem trackedPass_analyses (h : Analyses t.loop i) :
    trackedPass t i =
      { loop := pass t.loop i
        assigned := assignedAfter (analysisCode t.loop i) t.assigned
        reads := t.reads ++ (branchReads (analysisCode t.loop i) (searchCode t.loop i)).map fun f =>
          (f, assignedAfter (analysisCode t.loop i) t.assigned f) } := by
  obtain ⟨hover, hd, hle, hlen, hcrc⟩ := h
  have hz : i.poll.packet.lqi &&& crcOk ≠ 0#8 := by simpa [Packet.crcGood] using hcrc
  unfold trackedPass
  rw [receive_accepted _ _ _ _ hd hle]
  dsimp only
  rw [if_pos ⟨hover, by simpa using hlen, hz⟩]
  rfl

/-- A pass that does not get to the analysis leaves the record alone. -/
theorem trackedPass_other (h : ¬Analyses t.loop i) : trackedPass t i = { t with loop := pass t.loop i } := by
  unfold trackedPass
  dsimp only
  apply if_neg
  rintro ⟨hover, hcount, hret⟩
  by_cases hd : i.poll.delivers t.loop.leng
  · by_cases hle : i.poll.packet.lengthByte ≤ t.loop.leng
    · rw [receive_accepted _ _ _ _ hd hle] at hcount hret
      exact h ⟨hover, hd, hle, by simpa using hcount, by simpa [Packet.crcGood] using hret⟩
    · rw [receive_rejected _ _ _ _ hd hle] at hret
      exact hret rfl
  · rw [receive_quiet _ _ _ _ hd] at hret
    exact hret rfl

/-- Every read so far found its field assigned. -/
def ReadsAssigned (t : Tracked F) : Prop := ∀ r ∈ t.reads, r.2 = true

/-- A pass with every field assigned behind its analysis reads assigned fields only. -/
theorem trackedPass_allAssigned (ha : Analyses t.loop i)
    (hafter : assignedAfter (analysisCode t.loop i) t.assigned = fun _ => true) (hs : ReadsAssigned t) :
    (trackedPass t i).assigned = (fun _ => true) ∧ ReadsAssigned (trackedPass t i) := by
  rw [trackedPass_analyses t i ha, hafter]
  refine ⟨rfl, ?_⟩
  intro r hr
  rcases List.mem_append.mp hr with hr | hr
  · exact hs r hr
  · obtain ⟨f, -, rfl⟩ := List.mem_map.mp hr
    rfl

/-- Once a frame has been accepted, every later read is of assigned fields. -/
theorem trackedPass_assigned (h : t.assigned = (fun _ => true) ∧ ReadsAssigned t) :
    (trackedPass t i).assigned = (fun _ => true) ∧ ReadsAssigned (trackedPass t i) := by
  by_cases ha : Analyses t.loop i
  · exact trackedPass_allAssigned t i ha (by simp [assignedAfter, h.1]) h.2
  · rw [trackedPass_other t i ha]
    exact h

/-- A rejected frame is printed all the same. -/
theorem trackedPass_rejected (ha : Analyses t.loop i) (hcode : analysisCode t.loop i ≠ 0#8) :
    (Field.deviceId, t.assigned .deviceId) ∈ (trackedPass t i).reads := by
  have hafter : assignedAfter (analysisCode t.loop i) t.assigned = t.assigned := if_neg hcode
  rw [trackedPass_analyses t i ha, hafter]
  simp [branchReads, allFields]

/-- Reads are only added. -/
theorem trackedPass_reads : t.reads <+: (trackedPass t i).reads := by
  by_cases ha : Analyses t.loop i
  · rw [trackedPass_analyses t i ha]
    exact List.prefix_append _ _
  · rw [trackedPass_other t i ha]

end Steps

section Runs

/-- The first packet that gets to the analysis must complete a good frame. What it is laid over is what packets
with a bad CRC have left in the buffer. -/
def FirstFrameGood (leng : U8) (left : Nat → U8) : List Packet → Prop
  | [] => True
  | p :: packets =>
    if p.lengthByte ≤ leng then
      if p.payload.length ≤ rxBufferSize then
        if p.crcGood then GoodFrame (overlay p.payload left)
        else FirstFrameGood p.lengthByte (overlay p.payload left) packets
      else True
    else FirstFrameGood p.lengthByte left packets

theorem run_reads (t : Tracked F) (passes : List Pass) : t.reads <+: (run trackedPass t passes).reads := by
  induction passes generalizing t with
  | nil => exact List.prefix_refl _
  | cons i passes ih => exact (trackedPass_reads t i).trans (ih _)

theorem run_overflowed_tracked (t : Tracked F) (passes : List Pass) (h : t.loop.overflow = true) :
    (run trackedPass t passes).reads = t.reads := by
  induction passes generalizing t with
  | nil => rfl
  | cons i passes ih =>
    have hno : ¬Analyses t.loop i := fun ha => absurd (ha.1.symm.trans h) Bool.false_ne_true
    rw [run_cons, ih _ (by rw [trackedPass_loop, pass_overflowed _ _ h]; exact h), trackedPass_other t i hno]

/-- From any state in which nothing has been assigned yet. -/
theorem run_readsAssigned_iff (t : Tracked F) (passes : List Pass) (h : t.loop.overflow = false)
    (hnone : t.assigned = fun _ => false) (hs : ReadsAssigned t) :
    ReadsAssigned (run trackedPass t passes) ↔
      FirstFrameGood t.loop.leng t.loop.rxBuffer (delivered t.loop.leng passes) := by
  induction passes generalizing t with
  | nil => exact iff_of_true hs trivial
  | cons i passes ih =>
    rw [run_cons, delivered]
    cases pass_cases t.loop i h with
    | quiet hd hpass =>
      rw [trackedPass_other t i fun ha => hd ha.2.1, hpass, if_neg hd]
      exact ih _ h hnone hs
    | rejected hd hle hpass =>
      rw [trackedPass_other t i fun ha => hle ha.2.2.1, hpass, if_pos hd, FirstFrameGood, if_neg hle]
      exact ih _ h hnone hs
    | overflow hd hle hlen hpass =>
      rw [trackedPass_other t i fun ha => hlen ha.2.2.2.1, hpass, if_pos hd, FirstFrameGood, if_pos hle, if_neg hlen,
        ReadsAssigned, run_overflowed_tracked _ _ rfl]
      exact iff_of_true hs trivial
    | crcBad hd hle hlen hcrc hpass =>
      have hno : ¬Analyses t.loop i := fun ha => absurd (hcrc.symm.trans ha.2.2.2.2) Bool.false_ne_true
      rw [trackedPass_other t i hno, hpass, if_pos hd, FirstFrameGood, if_pos hle, if_pos hlen, hcrc]
      exact ih _ h hnone hs
    | crcGood hd hle hlen hcrc hpass =>
      have ha : Analyses t.loop i := ⟨h, hd, hle, hlen, hcrc⟩
      have hcode : analysisCode t.loop i = 0#8 ↔ GoodFrame (overlay i.poll.packet.payload t.loop.rxBuffer) :=
        dataFrameAnalysis_eq_zero_iff _ _ _
      rw [if_pos hd, FirstFrameGood, if_pos hle, if_pos hlen, if_pos hcrc, ← hcode]
      by_cases hzero : analysisCode t.loop i = 0#8
      · have hfirst := trackedPass_allAssigned t i ha (if_pos hzero) hs
        exact iff_of_true (invariant trackedPass_assigned _ passes hfirst).2 hzero
      · refine iff_of_false ?_ hzero
        intro hall
        have hread := hall _ ((run_reads _ passes).subset (trackedPass_rejected t i ha hzero))
        rw [hnone] at hread
        exact Bool.false_ne_true hread

/-- Every read from power-up finds its field assigned exactly when the first analysed frame is a good one. -/
theorem reads_assigned_iff (stack : NodeData F) (regs : Table) (passes : List Pass) :
    (∀ r ∈ (run trackedPass (start stack regs) passes).reads, r.2 = true) ↔
      FirstFrameGood 0#8 (fun _ => 0#8) (delivered 0#8 passes) :=
  run_readsAssigned_iff (start stack regs) passes rfl rfl (by simp [ReadsAssigned, start])

/-- The first packet sets the length; the second has a good CRC and no header, and the loop prints what the stack
held. -/
theorem reads_unassigned :
    (Field.temperatureValue, false) ∈ (run trackedPass (start blankNode zeroTable)
      [passOf (List.replicate 12 0#8) 0x80#8 (by decide), passOf (List.replicate 12 0#8) 0x80#8 (by decide)]).reads := by
  decide

end Runs

end DataReceiveRelay.NodeDataReads
