import DataReceiveRelay.DataFrame

/-!
# The receive loop

One pass of the `while(1)` loop of `TaskDataReceiveThreadEntry`: poll the radio,
analyse the buffer when the chip reports a good CRC, store the frame, clear the
buffer. The radio and the second counter are inputs of the pass; everything the
thread carries from pass to pass is in `Loop`.

`rxBuffer` has twelve cells. A burst read beyond them destroys the stack frame,
so nothing after it is defined: the run stops there with `overflow` set. The
lists `accesses` and `analyses` record what the loop did and are never read.
-/

namespace DataReceiveRelay.Receive

open Words Runs Registers Radio DataFrame

/-- `sizeof(rxBuffer)`. -/
def rxBufferSize : Nat := 12

/-- A block access to `rxBuffer`. -/
inductive Access where
  | readBrust : U8 → Access
  | memset : U8 → Access
  deriving DecidableEq, Repr

def Access.count : Access → Nat
  | .readBrust n => n.toNat
  | .memset n => n.toNat

/-- One call of `DataFrameAnalysis`: the bytes it saw, the packet read just
before, and what it returned. -/
structure Analysis where
  bytes : List U8
  packet : Packet
  ret : U8

/-- State of the receive thread between two passes. -/
structure Loop (F : Type) where
  rxBuffer : Nat → U8
  leng : U8
  num : U8
  nodeData : NodeData F
  status : StatusRegisters
  regs : Table
  overflow : Bool
  accesses : List Access
  analyses : List Analysis

/-- What the environment shows during one pass. -/
structure Pass where
  poll : Poll
  now : U32

variable {F : Type} [CFloat F]

/-- The loop's locals before the first pass; `stack` is what `nodeData` held. -/
def powerUp (stack : NodeData F) (regs : Table) : Loop F where
  rxBuffer := fun _ => 0#8
  leng := 0#8
  num := 0#8
  nodeData := nodeDataStructInit stack
  status := ⟨0#8, 0#8⟩
  regs := regs
  overflow := false
  accesses := []
  analyses := []

/-- `DataFrameAnalysis`, `getDeviceNumber` and the five stores; the first
component is the code the analysis returned. -/
def processPacket (now : U32) (status : StatusRegisters) (rxBuffer : Nat → U8) (nodeData : NodeData F)
    (regs : Table) : U8 × NodeData F × Table :=
  let (ret, nodeData) := dataFrameAnalysis rxBuffer status nodeData
  if ret = 0#8 then
    let (found, nodeData) := getDeviceNumber regs nodeData
    if found = 0#8 then (ret, nodeData, storeFrame now nodeData regs)
    else (ret, nodeData, regs)
  else (ret, nodeData, regs)

/-- `memset(rxBuffer, 0, leng)`. -/
def memsetZero (rxBuffer : Nat → U8) (leng : U8) : Nat → U8 :=
  fun j => if j < leng.toNat then 0#8 else rxBuffer j

/-- The branch taken when `CC1101_ReceivePacket` returns non-zero. -/
def packetBranch (s : Loop F) (i : Pass) : Loop F :=
  let (ret, nodeData, regs) := processPacket i.now s.status s.rxBuffer s.nodeData s.regs
  { s with
    rxBuffer := memsetZero s.rxBuffer s.leng
    num := 0#8
    nodeData := { nodeData with isDataValid := false }
    regs := regs
    accesses := s.accesses ++ [.memset s.leng]
    analyses := s.analyses ++ [⟨(List.range rxBufferSize).map s.rxBuffer, i.poll.packet, ret⟩] }

/-- The periodic chip reset and the counter increment that end every pass. -/
def endPass (s : Loop F) : Loop F :=
  { s with num := (if s.num = 20#8 then 0#8 else s.num) + 1#8 }

def pass (s : Loop F) (i : Pass) : Loop F :=
  if s.overflow then s
  else
    let r := cc1101ReceivePacket i.poll s.rxBuffer s.leng s.status
    let accesses := s.accesses ++ (r.brust.map Access.readBrust).toList
    if ∀ count ∈ r.brust, count.toNat ≤ rxBufferSize then
      let s := { s with rxBuffer := r.rxBuffer, leng := r.length, status := r.status, accesses := accesses }
      endPass (if r.ret ≠ 0#8 then packetBranch s i else s)
    else { s with overflow := true, accesses := accesses }

section Cases

variable (s : Loop F) (i : Pass)

/-- The state after the burst read of an accepted packet. -/
def taken : Loop F :=
  { s with
    rxBuffer := overlay i.poll.packet.payload s.rxBuffer
    leng := i.poll.packet.lengthByte
    status := ⟨i.poll.packet.rssi, i.poll.packet.lqi⟩
    accesses := s.accesses ++ [.readBrust i.poll.packet.lengthByte] }

theorem pass_overflowed (h : s.overflow = true) : pass s i = s := by
  simp [pass, h]

theorem pass_quiet (h : s.overflow = false) (hd : ¬i.poll.delivers s.leng) : pass s i = endPass s := by
  simp [pass, h, receive_quiet _ _ _ _ hd]
  rw [← h]

/-- A packet longer than the carried length only replaces that length. -/
theorem pass_rejected (h : s.overflow = false) (hd : i.poll.delivers s.leng)
    (hle : ¬i.poll.packet.lengthByte ≤ s.leng) :
    pass s i = endPass { s with leng := i.poll.packet.lengthByte } := by
  simp [pass, h, receive_rejected _ _ _ _ hd hle]

theorem pass_overflow (h : s.overflow = false) (hd : i.poll.delivers s.leng)
    (hle : i.poll.packet.lengthByte ≤ s.leng) (hlen : ¬i.poll.packet.payload.length ≤ rxBufferSize) :
    pass s i =
      { s with overflow := true, accesses := s.accesses ++ [.readBrust i.poll.packet.lengthByte] } := by
  simp [pass, h, receive_accepted _ _ _ _ hd hle, hlen]

/-- A packet with a bad CRC stays in the buffer. -/
theorem pass_crcBad (h : s.overflow = false) (hd : i.poll.delivers s.leng)
    (hle : i.poll.packet.lengthByte ≤ s.leng) (hlen : i.poll.packet.payload.length ≤ rxBufferSize)
    (hcrc : i.poll.packet.crcGood = false) : pass s i = endPass (taken s i) := by
  have hz : i.poll.packet.lqi &&& crcOk = 0#8 := by simpa [Packet.crcGood] using hcrc
  simp [pass, h, receive_accepted _ _ _ _ hd hle, hlen, hz, taken]

theorem pass_crcGood (h : s.overflow = false) (hd : i.poll.delivers s.leng)
    (hle : i.poll.packet.lengthByte ≤ s.leng) (hlen : i.poll.packet.payload.length ≤ rxBufferSize)
    (hcrc : i.poll.packet.crcGood = true) : pass s i = endPass (packetBranch (taken s i) i) := by
  have hz : i.poll.packet.lqi &&& crcOk ≠ 0#8 := by simpa [Packet.crcGood] using hcrc
  simp [pass, h, receive_accepted _ _ _ _ hd hle, hlen, hz, taken]

/-- The five ways a pass can go. -/
inductive PassCase : Prop where
  | quiet (hd : ¬i.poll.delivers s.leng) (hpass : pass s i = endPass s)
  | rejected (hd : i.poll.delivers s.leng) (hle : ¬i.poll.packet.lengthByte ≤ s.leng)
      (hpass : pass s i = endPass { s with leng := i.poll.packet.lengthByte })
  | overflow (hd : i.poll.delivers s.leng) (hle : i.poll.packet.lengthByte ≤ s.leng)
      (hlen : ¬i.poll.packet.payload.length ≤ rxBufferSize)
      (hpass : pass s i =
        { s with overflow := true, accesses := s.accesses ++ [.readBrust i.poll.packet.lengthByte] })
  | crcBad (hd : i.poll.delivers s.leng) (hle : i.poll.packet.lengthByte ≤ s.leng)
      (hlen : i.poll.packet.payload.length ≤ rxBufferSize) (hcrc : i.poll.packet.crcGood = false)
      (hpass : pass s i = endPass (taken s i))
  | crcGood (hd : i.poll.delivers s.leng) (hle : i.poll.packet.lengthByte ≤ s.leng)
      (hlen : i.poll.packet.payload.length ≤ rxBufferSize) (hcrc : i.poll.packet.crcGood = true)
      (hpass : pass s i = endPass (packetBranch (taken s i) i))

theorem pass_cases (h : s.overflow = false) : PassCase s i := by
  by_cases hd : i.poll.delivers s.leng
  · by_cases hle : i.poll.packet.lengthByte ≤ s.leng
    · by_cases hlen : i.poll.packet.payload.length ≤ rxBufferSize
      · cases hcrc : i.poll.packet.crcGood with
        | false => exact .crcBad hd hle hlen hcrc (pass_crcBad s i h hd hle hlen hcrc)
        | true => exact .crcGood hd hle hlen hcrc (pass_crcGood s i h hd hle hlen hcrc)
      · exact .overflow hd hle hlen (pass_overflow s i h hd hle hlen)
    · exact .rejected hd hle (pass_rejected s i h hd hle)
  · exact .quiet hd (pass_quiet s i h hd)

end Cases

/-- The packets a sequence of passes hands to the driver; the wait depends on
the carried length, which every handed-over packet replaces by its own. -/
def delivered (leng : U8) : List Pass → List Packet
  | [] => []
  | i :: passes =>
    if i.poll.delivers leng then i.poll.packet :: delivered i.poll.packet.lengthByte passes
    else delivered leng passes

section Safety

/-- No packet longer than the buffer follows one that is at least as long. -/
def SafeFrom (leng : U8) : List Packet → Prop
  | [] => True
  | p :: packets =>
    ¬(rxBufferSize < p.payload.length ∧ p.lengthByte ≤ leng) ∧ SafeFrom p.lengthByte packets

theorem safeFrom_iff_isChain (p : Packet) (packets : List Packet) :
    SafeFrom p.lengthByte packets ↔
      (p :: packets).IsChain fun p q => ¬(rxBufferSize < q.payload.length ∧ q.lengthByte ≤ p.lengthByte) := by
  induction packets generalizing p with
  | nil => simp [SafeFrom]
  | cons q packets ih => rw [SafeFrom, List.isChain_cons_cons, ih]

/-- At power-up nothing longer than zero bytes is taken, so the first packet is safe. -/
theorem safeFrom_zero (packets : List Packet) : SafeFrom 0#8 packets ↔
    packets.IsChain fun p q => ¬(rxBufferSize < q.payload.length ∧ q.lengthByte ≤ p.lengthByte) := by
  cases packets with
  | nil => simp [SafeFrom]
  | cons p packets =>
    rw [SafeFrom, ← safeFrom_iff_isChain, and_iff_right]
    rintro ⟨hlt, hle⟩
    rw [BitVec.le_def, Packet.lengthByte_toNat] at hle
    simp only [BitVec.toNat_ofNat, Nat.zero_mod] at hle
    simp only [rxBufferSize] at hlt
    omega

theorem run_overflowed (s : Loop F) (passes : List Pass) (h : s.overflow = true) :
    run pass s passes = s := by
  induction passes with
  | nil => rfl
  | cons i passes ih => rw [run_cons, pass_overflowed s i h, ih]

/-- One more access within the buffer. -/
theorem accesses_snoc (accesses : List Access) (new : Access) (hs : ∀ a ∈ accesses, a.count ≤ rxBufferSize)
    (hnew : new.count ≤ rxBufferSize) : ∀ a ∈ accesses ++ [new], a.count ≤ rxBufferSize := by
  intro a ha
  rcases List.mem_append.mp ha with ha | ha
  · exact hs a ha
  · rw [List.mem_singleton.mp ha]
    exact hnew

/-- What `leng` carries after the given packets. -/
def carried (leng : U8) (packets : List Packet) : U8 := (packets.map Packet.lengthByte).getLastD leng

theorem carried_cons (leng : U8) (p : Packet) (packets : List Packet) :
    carried leng (p :: packets) = carried p.lengthByte packets := List.getLastD_cons

/-- Every packet the loop looks at leaves its length behind, stored or not. -/
theorem pass_leng (s : Loop F) (i : Pass) (h : s.overflow = false) :
    (pass s i).leng = (if i.poll.delivers s.leng then i.poll.packet.lengthByte else s.leng) ∧
        (pass s i).overflow = false ∧
        (i.poll.delivers s.leng → ¬(rxBufferSize < i.poll.packet.payload.length ∧ i.poll.packet.lengthByte ≤ s.leng)) ∨
      (pass s i).overflow = true ∧ i.poll.delivers s.leng ∧
        rxBufferSize < i.poll.packet.payload.length ∧ i.poll.packet.lengthByte ≤ s.leng := by
  cases pass_cases s i h with
  | quiet hd hpass =>
    rw [hpass, if_neg hd]
    exact .inl ⟨rfl, h, fun hh => absurd hh hd⟩
  | rejected hd hle hpass =>
    rw [hpass, if_pos hd]
    exact .inl ⟨rfl, h, fun _ hlong => hle hlong.2⟩
  | overflow hd hle hlen hpass =>
    rw [hpass]
    exact .inr ⟨rfl, hd, by omega, hle⟩
  | crcBad hd hle hlen hcrc hpass =>
    rw [hpass, if_pos hd]
    exact .inl ⟨rfl, h, by omega⟩
  | crcGood hd hle hlen hcrc hpass =>
    rw [hpass, if_pos hd]
    exact .inl ⟨rfl, h, by omega⟩

/-- The run goes on as long as the lengths are safe, and carries the last of them. -/
theorem run_leng (s : Loop F) (passes : List Pass) (h : s.overflow = false) :
    ((run pass s passes).overflow = false ↔ SafeFrom s.leng (delivered s.leng passes)) ∧
      ((run pass s passes).overflow = false →
        (run pass s passes).leng = carried s.leng (delivered s.leng passes)) := by
  induction passes generalizing s with
  | nil => exact ⟨iff_of_true h trivial, fun _ => rfl⟩
  | cons i passes ih =>
    rw [run_cons, delivered]
    rcases pass_leng s i h with ⟨hleng, hnext, hsafe⟩ | ⟨hover, hd, hlong⟩
    · obtain ⟨hrun, hlast⟩ := ih (pass s i) hnext
      by_cases hd : i.poll.delivers s.leng
      · rw [if_pos hd] at hleng
        rw [if_pos hd, SafeFrom, and_iff_right (hsafe hd), carried_cons, ← hleng]
        exact ⟨hrun, hlast⟩
      · rw [if_neg hd] at hleng
        rw [if_neg hd, ← hleng]
        exact ⟨hrun, hlast⟩
    · rw [run_overflowed _ _ hover, if_pos hd, SafeFrom, hover]
      exact ⟨iff_of_false (by simp) (fun hno => hno.1 hlong), fun hno => by cases hno⟩

/-- A pass leaves the buffer exactly when it sets `overflow`. -/
theorem pass_accesses (s : Loop F) (i : Pass) (h : (∀ a ∈ s.accesses, a.count ≤ rxBufferSize) ↔ s.overflow = false) :
    (∀ a ∈ (pass s i).accesses, a.count ≤ rxBufferSize) ↔ (pass s i).overflow = false := by
  cases hover : s.overflow with
  | true =>
    rw [pass_overflowed s i hover]
    exact h
  | false =>
    have hs := h.mpr hover
    have hread (hlen : i.poll.packet.payload.length ≤ rxBufferSize) :
        ∀ a ∈ (taken s i).accesses, a.count ≤ rxBufferSize := by
      apply accesses_snoc _ _ hs
      rw [Access.count, Packet.lengthByte_toNat]
      exact hlen
    cases pass_cases s i hover with
    | quiet hd hpass =>
      rw [hpass]
      exact iff_of_true hs hover
    | rejected hd hle hpass =>
      rw [hpass]
      exact iff_of_true hs hover
    | overflow hd hle hlen hpass =>
      rw [hpass]
      refine iff_of_false ?_ (by simp)
      intro hall
      have hcount := hall (.readBrust i.poll.packet.lengthByte) (by simp)
      rw [Access.count, Packet.lengthByte_toNat] at hcount
      exact hlen hcount
    | crcBad hd hle hlen hcrc hpass =>
      rw [hpass]
      exact iff_of_true (hread hlen) hover
    | crcGood hd hle hlen hcrc hpass =>
      rw [hpass]
      refine iff_of_true (accesses_snoc _ _ (hread hlen) ?_) hover
      simpa [Access.count, taken] using hlen

/-- Exact safety of the receive buffer over every packet history: every burst
read and every clear stays within twelve bytes iff no delivered packet of more
than twelve bytes directly follows one at least as long. -/
theorem rxBuffer_safe_iff (stack : NodeData F) (regs : Table) (passes : List Pass) :
    (∀ a ∈ (run pass (powerUp stack regs) passes).accesses, a.count ≤ 12) ↔
      (delivered 0#8 passes).IsChain fun p q => ¬(12 < q.payload.length ∧ q.lengthByte ≤ p.lengthByte) := by
  have hrun := invariant pass_accesses (powerUp stack regs) passes (by simp [powerUp])
  exact hrun.trans ((run_leng (powerUp stack regs) passes rfl).1.trans (safeFrom_zero _))

/-- A node structure for closed runs. -/
def blankNode : NodeData Float := ⟨false, 0#32, 0, 0, 0#8, 0#8, 0#8⟩

/-- A pass that delivers the given payload with the given LQI byte. -/
def passOf (payload : List U8) (lqi : U8) (fits : payload.length < 256) : Pass :=
  ⟨⟨0, 0x10#8, ⟨payload, 0x20#8, lqi, fits⟩⟩, 1#32⟩

/-- The first 13-byte packet is refused but leaves 13 in `leng`; the second one
is then read into the 12-byte buffer. -/
theorem rxBuffer_overrun :
    ¬∀ a ∈ (run pass (powerUp blankNode zeroTable)
      [passOf (List.replicate 13 0x5A#8) 0x80#8 (by decide),
        passOf (List.replicate 13 0x5A#8) 0x80#8 (by decide)]).accesses, a.count ≤ 12 := by
  decide

end Safety

section Integrity

/-- What integrity asks of one analysis: a zero return is only given to the
twelve payload bytes of a twelve-byte packet whose CRC the chip accepted. -/
def Faithful (a : Analysis) : Prop :=
  a.ret = 0#8 → a.bytes = a.packet.payload ∧ a.packet.lengthByte = 12#8 ∧ a.packet.crcGood = true

instance (a : Analysis) : Decidable (Faithful a) :=
  inferInstanceAs (Decidable (_ → _))

/-- What an accepted packet leaves in the buffer: its payload when the CRC was
bad, zeros when it was good, and the old bytes behind it in both cases. -/
def leftBy (leng : U8) (p : Packet) (left : Nat → U8) : Nat → U8 :=
  if p.lengthByte ≤ leng then
    if p.crcGood then memsetZero left p.lengthByte else overlay p.payload left
  else left

/-- Over a packet history: accepted packets fit the buffer, and no CRC-good one
of fewer than twelve bytes completes a frame with the bytes left behind it. -/
def IntactFrom (leng : U8) (left : Nat → U8) : List Packet → Prop
  | [] => True
  | p :: packets =>
    (p.lengthByte ≤ leng → p.payload.length ≤ rxBufferSize ∧
      (p.crcGood = true → p.payload.length < rxBufferSize → ¬GoodFrame (overlay p.payload left))) ∧
    IntactFrom p.lengthByte (leftBy leng p left) packets

theorem memset_overlay (p : Packet) (buffer : Nat → U8) :
    memsetZero (overlay p.payload buffer) p.lengthByte = memsetZero buffer p.lengthByte := by
  funext j
  by_cases h : j < p.payload.length <;> simp [memsetZero, overlay, h]

/-- A full-length payload replaces the whole buffer. -/
theorem map_overlay_full (p : Packet) (buffer : Nat → U8) (h : p.payload.length = rxBufferSize) :
    (List.range rxBufferSize).map (overlay p.payload buffer) = p.payload := by
  apply List.ext_getElem
  · simp [h]
  · intro j h₁ h₂
    simp [overlay, h₂]

/-- The analysis of an accepted, CRC-good packet is faithful unless a short
packet met a matching rest. -/
theorem analysis_faithful_iff (p : Packet) (buffer : Nat → U8) (value : StatusRegisters)
    (nodeData : NodeData F) (hcrc : p.crcGood = true) (hlen : p.payload.length ≤ rxBufferSize) :
    Faithful ⟨(List.range rxBufferSize).map (overlay p.payload buffer), p,
        (dataFrameAnalysis (overlay p.payload buffer) value nodeData).1⟩ ↔
      (p.payload.length < rxBufferSize → ¬GoodFrame (overlay p.payload buffer)) := by
  simp only [Faithful, dataFrameAnalysis_eq_zero_iff]
  constructor
  · intro hf hshort hgood
    have hl := congrArg BitVec.toNat (hf hgood).2.1
    rw [Packet.lengthByte_toNat] at hl
    simp only [rxBufferSize, BitVec.toNat_ofNat] at *
    omega
  · intro hno hgood
    have hfull : p.payload.length = rxBufferSize := by
      by_contra hne
      exact hno (by omega) hgood
    refine ⟨map_overlay_full p buffer hfull, ?_, hcrc⟩
    apply BitVec.eq_of_toNat_eq
    rw [Packet.lengthByte_toNat, hfull]
    rfl

theorem processPacket_fst (now : U32) (value : StatusRegisters) (b : Nat → U8) (nodeData : NodeData F)
    (regs : Table) :
    (processPacket now value b nodeData regs).1 = (dataFrameAnalysis b value nodeData).1 := by
  simp only [processPacket]
  split
  · split <;> rfl
  · rfl

/-- The record of analyses only grows. -/
theorem pass_keeps_analysis (a : Analysis) (s : Loop F) (i : Pass) (h : a ∈ s.analyses) :
    a ∈ (pass s i).analyses := by
  unfold pass endPass packetBranch
  split
  · exact h
  · dsimp only
    split
    · split <;> simp [h]
    · exact h

/-- The analysis a CRC-good packet adds to the record. -/
def newAnalysis (s : Loop F) (i : Pass) : Analysis :=
  ⟨(List.range rxBufferSize).map (overlay i.poll.packet.payload s.rxBuffer), i.poll.packet,
    (dataFrameAnalysis (overlay i.poll.packet.payload s.rxBuffer) (taken s i).status s.nodeData).1⟩

theorem packetBranch_analyses (s : Loop F) (i : Pass) :
    (endPass (packetBranch (taken s i) i)).analyses = s.analyses ++ [newAnalysis s i] := by
  simp [endPass, packetBranch, taken, processPacket_fst, newAnalysis]

theorem leftBy_crcGood (s : Loop F) (i : Pass) (hle : i.poll.packet.lengthByte ≤ s.leng)
    (hcrc : i.poll.packet.crcGood = true) :
    leftBy s.leng i.poll.packet s.rxBuffer = (endPass (packetBranch (taken s i) i)).rxBuffer := by
  simp [leftBy, hle, hcrc, endPass, packetBranch, taken, memset_overlay]

/-- Integrity of a whole run, from any state. -/
theorem run_analyses (s : Loop F) (passes : List Pass) (h : s.overflow = false)
    (hs : ∀ a ∈ s.analyses, Faithful a) :
    ((run pass s passes).overflow = false ∧ ∀ a ∈ (run pass s passes).analyses, Faithful a) ↔
      IntactFrom s.leng s.rxBuffer (delivered s.leng passes) := by
  induction passes generalizing s with
  | nil => simpa [delivered, IntactFrom, h] using hs
  | cons i passes ih =>
    rw [run_cons, delivered]
    cases pass_cases s i h with
    | quiet hd hpass =>
      rw [if_neg hd, hpass]
      exact ih _ h hs
    | rejected hd hle hpass =>
      have hleft : leftBy s.leng i.poll.packet s.rxBuffer = s.rxBuffer := by simp [leftBy, hle]
      rw [if_pos hd, IntactFrom, hpass, hleft, and_iff_right (fun hh => absurd hh hle)]
      exact ih _ h hs
    | overflow hd hle hlen hpass =>
      rw [if_pos hd, IntactFrom, hpass, run_overflowed _ _ rfl]
      simp [hle, hlen]
    | crcBad hd hle hlen hcrc hpass =>
      have hleft : leftBy s.leng i.poll.packet s.rxBuffer = overlay i.poll.packet.payload s.rxBuffer := by
        simp [leftBy, hle, hcrc]
      rw [if_pos hd, IntactFrom, hpass, hleft]
      refine (ih (endPass (taken s i)) h hs).trans (and_iff_right ?_).symm
      exact fun _ => ⟨hlen, fun hf => by simp [hcrc] at hf⟩
    | crcGood hd hle hlen hcrc hpass =>
      have hnew := analysis_faithful_iff i.poll.packet s.rxBuffer (taken s i).status s.nodeData hcrc hlen
      rw [if_pos hd, IntactFrom, hpass, leftBy_crcGood s i hle hcrc]
      by_cases hgood : i.poll.packet.payload.length < rxBufferSize →
          ¬GoodFrame (overlay i.poll.packet.payload s.rxBuffer)
      · rw [and_iff_right (fun _ => ⟨hlen, fun _ => hgood⟩)]
        refine ih _ h ?_
        intro a ha
        rw [packetBranch_analyses] at ha
        rcases List.mem_append.mp ha with ha | ha
        · exact hs a ha
        · rw [List.mem_singleton.mp ha]
          exact hnew.mpr hgood
      · -- The mixed frame is analysed with code 0 and stays on record.
        constructor
        · rintro ⟨-, hall⟩
          have hmem := invariant (fun (t : Loop F) j => pass_keeps_analysis (newAnalysis s i) t j) _ passes
            (by rw [packetBranch_analyses]; exact List.mem_append_right _ (List.mem_singleton_self _))
          exact absurd (hnew.mp (hall _ hmem)) hgood
        · rintro ⟨hok, -⟩
          exact absurd ((hok hle).2 hcrc) hgood

/-- Exact integrity of the receive path: a run stays defined and every accepted
frame is the whole payload of a CRC-good twelve-byte packet, iff the delivered
packets never overrun the buffer and never complete a frame with left-over bytes. -/
theorem frames_intact_iff (stack : NodeData F) (regs : Table) (passes : List Pass) :
    ((run pass (powerUp stack regs) passes).overflow = false ∧
      ∀ a ∈ (run pass (powerUp stack regs) passes).analyses, Faithful a) ↔
      IntactFrom 0#8 (fun _ => 0#8) (delivered 0#8 passes) :=
  run_analyses (powerUp stack regs) passes rfl (by simp [powerUp])

/-- A frame for device 0 with a right sum. -/
def frameZero : List U8 := [0x5A#8, 0#8, 0#8, 0#8, 0#8, 0#8, 1#8, 0#8, 1#8, 0#8, 0#8, 0x5C#8]

/-- A packet with a bad CRC is kept, and the one-byte packet behind it turns it
into an accepted frame that is stored for slot 0. -/
theorem frame_mixed :
    let s := run pass (powerUp blankNode zeroTable)
      [passOf frameZero 0#8 (by decide), passOf frameZero 0#8 (by decide), passOf [0x5A#8] 0x80#8 (by decide)]
    s.overflow = false ∧ (¬∀ a ∈ s.analyses, Faithful a) ∧ s.regs 0x208 = 1#16 := by
  decide

end Integrity

section Effect

/-- Slot `i` of the ID table holds the big-endian word of bytes 2 to 5. -/
def IdMatches (b : Nat → U8) (regs : Table) (i : Nat) : Prop :=
  (regs (0x708 + 2 * i)).toNat + 2 ^ 16 * (regs (0x709 + 2 * i)).toNat =
    2 ^ 24 * (b 2).toNat + 2 ^ 16 * (b 3).toNat + 2 ^ 8 * (b 4).toNat + (b 5).toNat

theorem idMatches_iff (b : Nat → U8) (regs : Table) (i : Nat) :
    IdMatches b regs i ↔ calculateDeviceId (fun k => b (2 + k)) = idAt regs i := by
  rw [← BitVec.toNat_inj, calculateDeviceId_toNat, idAt, join_toNat, IdMatches]
  simp only [nodeDeviceIdFirstAddress, Nat.add_zero, Nat.reduceAdd]
  omega

/-- If a slot matches at all, there is a first one. -/
theorem exists_least_match (b : Nat → U8) (regs : Table) (h : ∃ i < nodeCount, IdMatches b regs i) :
    ∃ n < nodeCount, IdMatches b regs n ∧ ∀ j < n, ¬IdMatches b regs j := by
  classical
  obtain ⟨hn, hm⟩ := Nat.find_spec h
  exact ⟨Nat.find h, hn, hm, fun j hj hj' => Nat.find_min h hj ⟨hj.trans hn, hj'⟩⟩

variable (now : U32) (value : StatusRegisters) (b : Nat → U8) (nodeData : NodeData F) (regs : Table)

/-- The node structure a good frame fills in, before the slot is looked up. -/
def analysed : NodeData F := (dataFrameAnalysis b value nodeData).2

theorem analysed_good (hg : GoodFrame b) :
    analysed value b nodeData =
      { calculateSignalStrength value nodeData with
        deviceId := calculateDeviceId fun i => b (2 + i)
        temperatureValue := calculateTemperature fun i => b (6 + i)
        voltageValue := calculateVolatge fun i => b (8 + i)
        isDataValid := true } := by
  simp [analysed, dataFrameAnalysis, hg.1, (checkSum_twelve b).mpr hg.2]

/-- The register table after one pass over a packet. -/
def receivedTable : Table := (processPacket now value b nodeData regs).2.2

theorem packetBranch_regs (s : Loop F) (i : Pass) :
    (packetBranch s i).regs = receivedTable i.now s.status s.rxBuffer s.nodeData s.regs := rfl

theorem receivedTable_bad (hg : ¬GoodFrame b) : receivedTable now value b nodeData regs = regs := by
  have hne := mt (dataFrameAnalysis_eq_zero_iff b value nodeData).mp hg
  simp only [receivedTable, processPacket, if_neg hne]

theorem receivedTable_unknown (hg : GoodFrame b) (hid : ∀ i < nodeCount, ¬IdMatches b regs i) :
    receivedTable now value b nodeData regs = regs := by
  have hret := (dataFrameAnalysis_eq_zero_iff b value nodeData).mpr hg
  have hmiss : getDeviceNumber regs (dataFrameAnalysis b value nodeData).2 =
      (1#8, (dataFrameAnalysis b value nodeData).2) := by
    apply getDeviceNumber_missing
    intro i hi
    change (analysed value b nodeData).deviceId ≠ _
    rw [analysed_good value b nodeData hg]
    exact mt (idMatches_iff b regs i).mpr (hid i hi)
  simp [receivedTable, processPacket, hret, hmiss]

theorem receivedTable_other (h : ¬(GoodFrame b ∧ ∃ i < 256, IdMatches b regs i)) :
    receivedTable now value b nodeData regs = regs := by
  by_cases hg : GoodFrame b
  · apply receivedTable_unknown now value b nodeData regs hg
    intro i hi hm
    exact h ⟨hg, i, hi, hm⟩
  · exact receivedTable_bad now value b nodeData regs hg

/-- The node structure that is stored for slot `n`. -/
def found (n : Nat) : NodeData F := { analysed value b nodeData with deviceNumber := BitVec.ofNat 8 n }

theorem found_valid (hg : GoodFrame b) (n : Nat) : (found value b nodeData n).isDataValid = true := by
  rw [found, analysed_good value b nodeData hg]

theorem found_number (n : Nat) (hn : n < 256) : (found value b nodeData n).deviceNumber.toNat = n := by
  simp only [found, BitVec.toNat_ofNat]
  omega

/-- A known frame is stored for the least matching slot. -/
theorem receivedTable_known (hg : GoodFrame b) (n : Nat) (hn : n < nodeCount) (hm : IdMatches b regs n)
    (hleast : ∀ j < n, ¬IdMatches b regs j) :
    receivedTable now value b nodeData regs = storeFrame now (found value b nodeData n) regs := by
  have hret := (dataFrameAnalysis_eq_zero_iff b value nodeData).mpr hg
  have hfound : getDeviceNumber regs (dataFrameAnalysis b value nodeData).2 = (0#8, found value b nodeData n) := by
    change getDeviceNumber regs (analysed value b nodeData) = _
    rw [found, analysed_good value b nodeData hg]
    apply getDeviceNumber_found regs _ n hn
    · exact (idMatches_iff b regs n).mp hm
    · intro j hj
      exact mt (idMatches_iff b regs j).mpr (hleast j hj)
  simp [receivedTable, processPacket, hret, hfound]

theorem launch_unchanged (regs : Table) (n : Nat) : launchAt regs n ≠ launchAt regs n + 1#32 := by
  intro h
  have hcount := congrArg BitVec.toNat h
  simp only [BitVec.toNat_add, BitVec.toNat_ofNat] at hcount
  omega

/-- The launch counter always moves, so a stored frame is never a no-op. -/
theorem receivedTable_ne (hg : GoodFrame b) (n : Nat) (hn : n < nodeCount) (hm : IdMatches b regs n)
    (hleast : ∀ j < n, ¬IdMatches b regs j) : receivedTable now value b nodeData regs ≠ regs := by
  intro heq
  have hv := storeFrame_values now (found value b nodeData n) regs n (found_valid value b nodeData hg n)
    (found_number value b nodeData n hn)
  rw [← receivedTable_known now value b nodeData regs hg n hn hm hleast, heq] at hv
  exact launch_unchanged regs n hv.2.2.2.1

/-- The complete effect of one received frame on the register table. -/
theorem received_frame_effect :
    (receivedTable now value b nodeData regs ≠ regs ↔ GoodFrame b ∧ ∃ i < 256, IdMatches b regs i) ∧
    (∀ n < 256, GoodFrame b → IdMatches b regs n → (∀ j < n, ¬IdMatches b regs j) →
      receivedTable now value b nodeData regs (0x008 + n) =
        temperatureFormat (calculateTemperature (fun i => b (6 + i)) : F) ∧
      receivedTable now value b nodeData regs (0x108 + n) =
        CFloat.toI16 (calculateVolatge (fun i => b (8 + i)) : F) ∧
      (receivedTable now value b nodeData regs (0x40A + 3 * n)).toNat =
        256 * (dBm value.rssi % 256).toNat + value.lqi.toNat % 128 ∧
      join (receivedTable now value b nodeData regs (0x208 + 2 * n))
          (receivedTable now value b nodeData regs (0x209 + 2 * n)) =
        join (regs (0x208 + 2 * n)) (regs (0x209 + 2 * n)) + 1#32 ∧
      join (receivedTable now value b nodeData regs (0xA08 + 2 * n))
          (receivedTable now value b nodeData regs (0xA09 + 2 * n)) = now ∧
      (∀ a ∈ nodeRegisters n, a < sRegHoldingNregs) ∧
      (∀ a ∉ nodeRegisters n, receivedTable now value b nodeData regs a = regs a)) ∧
    (¬(GoodFrame b ∧ ∃ i < 256, IdMatches b regs i) → receivedTable now value b nodeData regs = regs) := by
  have hsame := receivedTable_other now value b nodeData regs
  refine ⟨⟨fun hne => by_contra fun hno => hne (hsame hno), ?_⟩, ?_, hsame⟩
  · rintro ⟨hg, hex⟩
    obtain ⟨n, hn, hm, hleast⟩ := exists_least_match b regs hex
    exact receivedTable_ne now value b nodeData regs hg n hn hm hleast
  · intro n hn hg hm hleast
    have hvalid := found_valid value b nodeData hg n
    have hnumber := found_number value b nodeData n hn
    obtain ⟨h1, h2, h3, h4, h5⟩ := storeFrame_values now (found value b nodeData n) regs n hvalid hnumber
    have hother := storeFrame_other now (found value b nodeData n) regs n hvalid hnumber
    rw [← receivedTable_known now value b nodeData regs hg n hn hm hleast] at h1 h2 h3 h4 h5 hother
    simp only [found, analysed_good value b nodeData hg] at h1 h2 h3
    have h01 : 0x208 + 1 + 2 * n = 0x209 + 2 * n := by omega
    have hA1 : 0xA08 + 1 + 2 * n = 0xA09 + 2 * n := by omega
    simp only [launchAt, receiveTimeAt, launchNumberFiratAddress, receivingMomentFiratAddress, h01, hA1]
      at h4 h5
    have hsignal := signalWord_status value nodeData
    exact ⟨h1, h2, (congrArg BitVec.toNat h3).trans hsignal, h4, h5, fun a ha => nodeRegisters_lt n a hn ha, hother⟩

end Effect

section Delivery

/-- The bytes of a packet as a frame. -/
def Packet.frame (p : Packet) : Nat → U8 := overlay p.payload fun _ => 0#8

theorem overlay_frame (p : Packet) (buffer : Nat → U8) (h : p.payload.length = rxBufferSize) :
    ∀ j < 12, overlay p.payload buffer j = Packet.frame p j := by
  intro j hj
  simp [overlay, Packet.frame, h, rxBufferSize, hj]

theorem idMatches_congr (b b' : Nat → U8) (regs : Table) (i : Nat) (h : ∀ j < 12, b j = b' j) :
    IdMatches b regs i ↔ IdMatches b' regs i := by
  rw [IdMatches, IdMatches, h 2 (by omega), h 3 (by omega), h 4 (by omega), h 5 (by omega)]

/-- A frame is waiting in the FIFO: twelve bytes with a good CRC, the right header and sum, and the ID of node `n`. -/
structure Presents (i : Pass) (regs : Table) (n : Nat) : Prop where
  waiting : i.poll.rxBytes &&& bytesInRxfifo ≠ 0#8
  length : i.poll.packet.payload.length = rxBufferSize
  crc : i.poll.packet.crcGood = true
  good : GoodFrame (Packet.frame i.poll.packet)
  bound : n < nodeCount
  number : IdMatches (Packet.frame i.poll.packet) regs n
  least : ∀ j < n, ¬IdMatches (Packet.frame i.poll.packet) regs j

/-- One pass counts the frame if it gets past the wait and the carried length leaves room for it. -/
theorem pass_counts_iff (s : Loop F) (i : Pass) (n : Nat) (h : s.overflow = false) (hp : Presents i s.regs n) :
    launchAt (pass s i).regs n = launchAt s.regs n + 1#32 ↔
      gdo0Wait (s.leng * 4#8) i.poll.gdo0 = true ∧ 12 ≤ s.leng.toNat := by
  have hlength : i.poll.packet.lengthByte.toNat = 12 := by rw [Packet.lengthByte_toNat, hp.length, rxBufferSize]
  have hdelivers : i.poll.delivers s.leng = true ↔ gdo0Wait (s.leng * 4#8) i.poll.gdo0 = true := by
    simp [Poll.delivers, hp.waiting]
  have hroom : i.poll.packet.lengthByte ≤ s.leng ↔ 12 ≤ s.leng.toNat := by rw [BitVec.le_def, hlength]
  rw [← hdelivers, ← hroom]
  cases pass_cases s i h with
  | quiet hd hpass =>
    rw [hpass]
    exact iff_of_false (launch_unchanged s.regs n) (fun hh => hd hh.1)
  | rejected hd hle hpass =>
    rw [hpass]
    exact iff_of_false (launch_unchanged s.regs n) (fun hh => hle hh.2)
  | overflow hd hle hlen hpass => exact absurd hp.length.le hlen
  | crcBad hd hle hlen hcrc hpass =>
    rw [hp.crc] at hcrc
    cases hcrc
  | crcGood hd hle hlen hcrc hpass =>
    refine iff_of_true ?_ ⟨hd, hle⟩
    have hsame := overlay_frame i.poll.packet s.rxBuffer hp.length
    have hgood := (goodFrame_congr _ _ hsame).mpr hp.good
    have hstored := receivedTable_known i.now (taken s i).status (taken s i).rxBuffer (taken s i).nodeData
      (taken s i).regs hgood n hp.bound ((idMatches_congr _ _ s.regs n hsame).mpr hp.number)
      (fun j hj => mt (idMatches_congr _ _ s.regs j hsame).mp (hp.least j hj))
    have hvalues := storeFrame_values i.now (found (taken s i).status (taken s i).rxBuffer (taken s i).nodeData n)
      (taken s i).regs n (found_valid _ _ _ hgood n) (found_number _ _ _ n hp.bound)
    rw [hpass]
    change launchAt (packetBranch (taken s i) i).regs n = launchAt (taken s i).regs n + 1#32
    rw [packetBranch_regs, hstored]
    exact hvalues.2.2.2.1

/-- A valid frame is counted after exactly those histories that never overran the buffer and whose last packet was
at least as long, when the end of the packet is seen within the wait. -/
theorem valid_frame_counted_iff (stack : NodeData F) (regs : Table) (passes : List Pass) (i : Pass) (n : Nat)
    (hp : Presents i (run pass (powerUp stack regs) passes).regs n) :
    launchAt (run pass (powerUp stack regs) (passes ++ [i])).regs n =
        launchAt (run pass (powerUp stack regs) passes).regs n + 1#32 ↔
      (delivered 0#8 passes).IsChain (fun p q => ¬(12 < q.payload.length ∧ q.lengthByte ≤ p.lengthByte)) ∧
        gdo0Wait (carried 0#8 (delivered 0#8 passes) * 4#8) i.poll.gdo0 = true ∧
        12 ≤ (carried 0#8 (delivered 0#8 passes)).toNat := by
  have hsafe : (run pass (powerUp stack regs) passes).overflow = false ↔ _ :=
    (run_leng (powerUp stack regs) passes rfl).1.trans (safeFrom_zero _)
  rw [run_append, run_cons, run_nil]
  cases hover : (run pass (powerUp stack regs) passes).overflow with
  | true =>
    rw [pass_overflowed _ i hover]
    refine iff_of_false (launch_unchanged _ n) ?_
    rintro ⟨hchain, -⟩
    rw [hsafe.mpr hchain] at hover
    cases hover
  | false =>
    have hleng := (run_leng (powerUp stack regs) passes rfl).2 hover
    rw [pass_counts_iff _ i n hover hp, hleng]
    exact (and_iff_right (hsafe.mp hover)).symm

/-- A frame of device 1 with a right sum. -/
def frameOne : List U8 := [0x5A#8, 0#8, 0#8, 0#8, 0#8, 1#8, 1#8, 0#8, 1#8, 0#8, 0#8, 0x5D#8]

/-- Device 1 is registered in slot 0. -/
def registeredOne : Table := Function.update zeroTable nodeDeviceIdFirstAddress 1#16

/-- The first frame after power-up is thrown away. -/
theorem first_frame_dropped :
    Presents (passOf frameOne 0x80#8 (by decide)) (run pass (powerUp blankNode registeredOne) []).regs 0 ∧
      launchAt (run pass (powerUp blankNode registeredOne) ([] ++ [passOf frameOne 0x80#8 (by decide)])).regs 0 ≠
        launchAt (run pass (powerUp blankNode registeredOne) []).regs 0 + 1#32 := by
  refine ⟨⟨by decide, by decide, by decide, by decide, by decide, ?_, by simp⟩, by decide⟩
  rw [idMatches_iff]
  decide

/-- The second one is counted. -/
theorem second_frame_counted :
    launchAt (run pass (powerUp blankNode registeredOne)
        ([passOf frameOne 0x80#8 (by decide)] ++ [passOf frameOne 0x80#8 (by decide)])).regs 0 =
      launchAt (run pass (powerUp blankNode registeredOne) [passOf frameOne 0x80#8 (by decide)]).regs 0 + 1#32 := by
  have hp : Presents (passOf frameOne 0x80#8 (by decide))
      (run pass (powerUp blankNode registeredOne) [passOf frameOne 0x80#8 (by decide)]).regs 0 := by
    refine ⟨by decide, by decide, by decide, by decide, by decide, ?_, by simp⟩
    rw [idMatches_iff]
    decide
  refine (valid_frame_counted_iff blankNode registeredOne _ _ 0 hp).mpr ⟨?_, by decide, by decide⟩
  decide

end Delivery

end DataReceiveRelay.Receive
