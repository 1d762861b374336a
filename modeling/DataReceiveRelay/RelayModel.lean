import DataReceiveRelay.LaunchCounter
import DataReceiveRelay.Iteration
import DataReceiveRelay.ModbusProgress
import DataReceiveRelay.Readings

/-!
# The device as a relay

Radio frames, timeout visits, the save thread and a host on the line meet in the
holding registers. What the device is for can be said without them: a relay
keeps one record for each node, a frame replaces the record of its node, a
timeout empties it, and the host reads the records through a register map. Every
session with the device ends as the same session with this relay.

A session begins when the link is started, with whatever the files have put into
the registers by then, and is over when the host has the board reset.
-/

namespace DataReceiveRelay.RelayModel

open Words Runs Blocks Registers Radio DataFrame Receive Overtime
open ModbusFunctions ModbusService ModbusRtu ModbusFrame ModbusSession ModbusProgress
open Nodes (Event node SameIds)

section Records

/-- What the relay keeps of a node. All zero: nothing received, or nothing received for too long. -/
structure Record where
  temperature : U16
  voltage : U16
  signal : U16
  launches : U32
  moment : U32
  deriving DecidableEq, Repr

def Record.empty : Record := ⟨0#16, 0#16, 0#16, 0#32, 0#32⟩

/-- The record in the registers of node `n`. -/
def recordAt (regs : Table) (n : Nat) : Record :=
  ⟨regs (0x008 + n), regs (0x108 + n), regs (0x40A + 3 * n), launchAt regs n, receiveTimeAt regs n⟩

/-- The register map: the records in five of the six areas, all other registers as they are. -/
@[irreducible] def layout (records : Nat → Record) (others : Table) : Table := fun a =>
  if 0x008 ≤ a ∧ a < 0x108 then (records (a - 0x008)).temperature
  else if 0x108 ≤ a ∧ a < 0x208 then (records (a - 0x108)).voltage
  else if 0x208 ≤ a ∧ a < 0x408 then
    if a % 2 = 0 then low (records ((a - 0x208) / 2)).launches else high (records ((a - 0x208) / 2)).launches
  else if 0x408 ≤ a ∧ a < 0x708 ∧ (a - 0x408) % 3 = 2 then (records ((a - 0x408) / 3)).signal
  else if 0xA08 ≤ a ∧ a < 0xC08 then
    if a % 2 = 0 then low (records ((a - 0xA08) / 2)).moment else high (records ((a - 0xA08) / 2)).moment
  else others a

/-- A record says all about the registers of its node. -/
theorem eq_of_recordAt (regs regs' : Table) (n : Nat) (h : recordAt regs n = recordAt regs' n) (a : Nat)
    (ha : a ∈ nodeRegisters n) : regs a = regs' a := by
  simp only [recordAt, Record.mk.injEq] at h
  obtain ⟨htemperature, hvoltage, hsignal, hlaunches, hmoment⟩ := h
  have hwords (lo hi lo' hi' : U16) (hjoin : join lo hi = join lo' hi') : lo = lo' ∧ hi = hi' :=
    ⟨by rw [← low_join lo hi, hjoin, low_join], by rw [← high_join lo hi, hjoin, high_join]⟩
  rcases (mem_nodeRegisters n a).mp ha with rfl | rfl | rfl | rfl | rfl | rfl | rfl
  · exact htemperature
  · exact hvoltage
  · exact (hwords _ _ _ _ hlaunches).1
  · exact (hwords _ _ _ _ hlaunches).2
  · exact hsignal
  · exact (hwords _ _ _ _ hmoment).1
  · exact (hwords _ _ _ _ hmoment).2

/-- Tables with the same records and the same other registers are the same. -/
theorem table_ext (regs regs' : Table) (hrecords : ∀ n < nodeCount, recordAt regs n = recordAt regs' n)
    (hothers : ∀ a, (∀ n < nodeCount, a ∉ nodeRegisters n) → regs a = regs' a) : regs = regs' := by
  funext a
  by_cases ha : ∃ n < nodeCount, a ∈ nodeRegisters n
  · obtain ⟨n, hn, ha⟩ := ha
    exact eq_of_recordAt regs regs' n (hrecords n hn) a ha
  · exact hothers a fun n hn hmem => ha ⟨n, hn, hmem⟩

theorem layout_others (records : Nat → Record) (others : Table) (a : Nat)
    (ha : ∀ n < nodeCount, a ∉ nodeRegisters n) : layout records others a = others a := by
  have hout (n : Nat) (hn : n < 256) : ¬(a = 0x008 + n ∨ a = 0x108 + n ∨ a = 0x208 + 2 * n ∨ a = 0x209 + 2 * n ∨
      a = 0x40A + 3 * n ∨ a = 0xA08 + 2 * n ∨ a = 0xA09 + 2 * n) := by
    rw [← mem_nodeRegisters]
    exact ha n hn
  have h₁ := hout (a - 0x008)
  have h₂ := hout (a - 0x108)
  have h₃ := hout ((a - 0x208) / 2)
  have h₄ := hout ((a - 0x408) / 3)
  have h₅ := hout ((a - 0xA08) / 2)
  unfold layout
  rw [if_neg (by omega), if_neg (by omega), if_neg (by omega), if_neg (by omega), if_neg (by omega)]

/-- What the map lays out is found again. -/
theorem recordAt_layout (records : Nat → Record) (others : Table) (n : Nat) (hn : n < nodeCount) :
    recordAt (layout records others) n = records n := by
  have hlt : n < 256 := hn
  have htemperature : layout records others (0x008 + n) = (records n).temperature := by
    rw [layout, if_pos (by omega), Nat.add_sub_cancel_left]
  have hvoltage : layout records others (0x108 + n) = (records n).voltage := by
    rw [layout, if_neg (by omega), if_pos (by omega), Nat.add_sub_cancel_left]
  have hsignal : layout records others (0x40A + 3 * n) = (records n).signal := by
    rw [layout, if_neg (by omega), if_neg (by omega), if_neg (by omega), if_pos (by omega),
      show (0x40A + 3 * n - 0x408) / 3 = n by omega]
  have hlaunches : launchAt (layout records others) n = (records n).launches := by
    have hlow : layout records others (0x208 + 2 * n) = low (records n).launches := by
      rw [layout, if_neg (by omega), if_neg (by omega), if_pos (by omega), if_pos (by omega),
        show (0x208 + 2 * n - 0x208) / 2 = n by omega]
    have hhigh : layout records others (0x209 + 2 * n) = high (records n).launches := by
      rw [layout, if_neg (by omega), if_neg (by omega), if_pos (by omega), if_neg (by omega),
        show (0x209 + 2 * n - 0x208) / 2 = n by omega]
    rw [launchAt, launchNumberFiratAddress, hlow, hhigh, join_low_high]
  have hmoment : receiveTimeAt (layout records others) n = (records n).moment := by
    have hlow : layout records others (0xA08 + 2 * n) = low (records n).moment := by
      rw [layout, if_neg (by omega), if_neg (by omega), if_neg (by omega), if_neg (by omega), if_pos (by omega),
        if_pos (by omega), show (0xA08 + 2 * n - 0xA08) / 2 = n by omega]
    have hhigh : layout records others (0xA09 + 2 * n) = high (records n).moment := by
      rw [layout, if_neg (by omega), if_neg (by omega), if_neg (by omega), if_neg (by omega), if_pos (by omega),
        if_neg (by omega), show (0xA09 + 2 * n - 0xA08) / 2 = n by omega]
    rw [receiveTimeAt, receivingMomentFiratAddress, hlow, hhigh, join_low_high]
  rw [recordAt, htemperature, hvoltage, hsignal, hlaunches, hmoment]

/-- Any table is laid out from its own records. -/
theorem layout_recordAt (regs : Table) : layout (recordAt regs) regs = regs :=
  table_ext _ _ (fun n hn => recordAt_layout _ _ n hn) fun a ha => layout_others _ _ a ha

theorem recordAt_congr (regs regs' : Table) (n : Nat) (h : ∀ a ∈ nodeRegisters n, regs a = regs' a) :
    recordAt regs n = recordAt regs' n := by
  rw [recordAt, recordAt, launchAt_congr regs regs' n h, receiveTimeAt_congr regs regs' n h]
  congr 1
  · exact h _ ((mem_nodeRegisters n _).mpr (by omega))
  · exact h _ ((mem_nodeRegisters n _).mpr (by omega))
  · exact h _ ((mem_nodeRegisters n _).mpr (by omega))

/-- A table that differs from a laid-out one in the record of one node only is laid out from the changed records. -/
theorem eq_layout_update (records : Nat → Record) (others regs : Table) (n : Nat) (r : Record) (hn : n < nodeCount)
    (hrecord : recordAt regs n = r) (hother : ∀ a ∉ nodeRegisters n, regs a = layout records others a) :
    regs = layout (Function.update records n r) others := by
  refine table_ext _ _ (fun m hm => ?_) fun a ha => ?_
  · rw [recordAt_layout _ _ m hm]
    by_cases he : m = n
    · rw [he, hrecord, Function.update_self]
    · rw [Function.update_of_ne he, ← recordAt_layout records others m hm]
      apply recordAt_congr
      intro a ha
      exact hother a (nodeRegisters_disjoint m n a hm hn he ha)
  · rw [hother a (ha n hn), layout_others _ _ a ha, layout_others _ _ a ha]

end Records

section Events

variable {F : Type} [CFloat F]

/-- What a frame makes of the record of its node: the readings, the RSSI in dBm over the link quality, one more launch
and the time. -/
def received (F : Type) [CFloat F] (now : U32) (value : StatusRegisters) (b : Nat → U8) (r : Record) : Record where
  temperature := temperatureFormat (calculateTemperature (fun i => b (6 + i)) : F)
  voltage := CFloat.toI16 (calculateVolatge (fun i => b (8 + i)) : F)
  signal := BitVec.ofInt 8 (dBm value.rssi) ++ (value.lqi &&& 0x7F#8)
  launches := r.launches + 1#32
  moment := now

/-- A record that has not been renewed for `overtime` seconds. -/
def expired (now overtime : U32) (r : Record) : Bool := r.moment != 0#32 && decide (overtime ≤ now - r.moment)

omit [CFloat F] in
theorem signalWord_append (nodeData : NodeData F) : signalWord nodeData = nodeData.rssiValue ++ nodeData.lqiValue := by
  obtain ⟨hrssi, hlqi⟩ := signalWord_bytes nodeData
  rw [← hrssi, ← hlqi]
  apply BitVec.eq_of_getLsbD_eq
  intro i hi
  rw [BitVec.getLsbD_append]
  simp only [BitVec.getLsbD_setWidth, BitVec.getLsbD_ushiftRight]
  by_cases h : i < 8
  · simp [h]
  · have hhigh : i - 8 < 8 := by omega
    simp [h, hhigh, show 8 + (i - 8) = i by omega]

theorem found_values (value : StatusRegisters) (b : Nat → U8) (nodeData : NodeData F) (hg : GoodFrame b) (n : Nat) :
    (found value b nodeData n).temperatureValue = calculateTemperature (fun i => b (6 + i)) ∧
    (found value b nodeData n).voltageValue = calculateVolatge (fun i => b (8 + i)) ∧
    signalWord (found value b nodeData n) = BitVec.ofInt 8 (dBm value.rssi) ++ (value.lqi &&& 0x7F#8) := by
  rw [signalWord_append, found, analysed_good value b nodeData hg]
  refine ⟨rfl, rfl, ?_⟩
  rw [← calculateSignalStrength_rssi value nodeData]
  rfl

theorem recordAt_storeFrame (now : U32) (value : StatusRegisters) (b : Nat → U8) (nodeData : NodeData F) (regs : Table)
    (hg : GoodFrame b) (n : Nat) (hn : n < nodeCount) :
    recordAt (storeFrame now (found value b nodeData n) regs) n = received F now value b (recordAt regs n) := by
  obtain ⟨htemperature, hvoltage, hsignal, hlaunches, hmoment⟩ := storeFrame_values now (found value b nodeData n) regs n
    (found_valid value b nodeData hg n) (found_number value b nodeData n hn)
  obtain ⟨ht, hv, hs⟩ := found_values value b nodeData hg n
  rw [recordAt, htemperature, hvoltage, hsignal, hlaunches, hmoment, ht, hv, hs]
  rfl

theorem recordAt_clearNode (regs : Table) (n : Nat) : recordAt (clearNode n regs) n = Record.empty := by
  have hzero (a : Nat) (ha : a ∈ nodeRegisters n) : clearNode n regs a = zeroTable a := by
    rw [clearNode_apply, if_pos ha]
    rfl
  have hjoin : join 0#16 0#16 = 0#32 := by decide
  rw [recordAt_congr _ _ n hzero]
  exact congrArg₂ (Record.mk 0#16 0#16 0#16) hjoin hjoin

theorem timedOut_layout (now overtime : U32) (records : Nat → Record) (others : Table) (n : Nat) (hn : n < nodeCount) :
    timedOut now overtime (layout records others) n = expired now overtime (records n) := by
  have hmoment : receiveTimeAt (layout records others) n = (records n).moment := by
    rw [← recordAt_layout records others n hn, recordAt]
  rw [Bool.eq_iff_iff, timedOut_iff, hmoment, expired]
  simp

/-- The relay: one record for each node, and all that the host sees beside them. -/
structure Relay where
  records : Nat → Record
  others : Banks

/-- The registers as the host sees them. -/
def Relay.banks (r : Relay) : Banks := { r.others with usSRegHoldBuf := layout r.records r.others.usSRegHoldBuf }

def Relay.ofBanks (banks : Banks) : Relay := ⟨recordAt banks.usSRegHoldBuf, banks⟩

@[simp] theorem Relay.banks_ofBanks (banks : Banks) : (Relay.ofBanks banks).banks = banks := by
  rw [Relay.banks, Relay.ofBanks, layout_recordAt]

theorem Relay.banks_hold (r : Relay) : r.banks.usSRegHoldBuf = layout r.records r.others.usSRegHoldBuf := rfl

/-- A frame of a known node renews its record, a visit empties an expired one. -/
def Relay.event (F : Type) [CFloat F] (r : Relay) : Event → Relay
  | .frame now value b =>
    match node r.others.usSRegHoldBuf (.frame now value b) with
    | none => r
    | some n => { r with records := Function.update r.records n (received F now value b (r.records n)) }
  | .visit now overtime i =>
    if expired now overtime (r.records i) then { r with records := Function.update r.records i Record.empty } else r

theorem sameIds_layout (records : Nat → Record) (others : Table) : SameIds (layout records others) others := by
  intro a hlo hhi
  apply layout_others
  intro n hn ha
  have hout := nodeRegisters_not_id n a hn ha
  omega

/-- What the two threads do to the registers is what the relay does to its records. -/
theorem event_refines (r : Relay) (e : Event) (nodeData : NodeData F) :
    (Nodes.step ⟨r.banks.usSRegHoldBuf, nodeData⟩ e).regs = (r.event F e).banks.usSRegHoldBuf := by
  have hids := sameIds_layout r.records r.others.usSRegHoldBuf
  have hcases := Nodes.step_cases (⟨r.banks.usSRegHoldBuf, nodeData⟩ : Nodes.State F) e
  cases hcases with
  | nothing hnode hregs =>
    rw [Relay.banks_hold, Nodes.node_congr _ _ hids] at hnode
    cases e with
    | frame now value b => rw [hregs, Relay.event, hnode]
    | visit now overtime i => cases hnode
  | stored now value b n he hnode hn hg hregs =>
    subst he
    rw [Relay.banks_hold, Nodes.node_congr _ _ hids] at hnode
    rw [hregs, Relay.event, hnode, Relay.banks_hold, Relay.banks_hold]
    refine eq_layout_update r.records r.others.usSRegHoldBuf _ n _ hn ?_ ?_
    · rw [recordAt_storeFrame now value b nodeData _ hg n hn, recordAt_layout _ _ n hn]
    · intro a ha
      exact storeFrame_other _ _ _ n (found_valid _ _ _ hg n) (found_number _ _ _ n hn) a ha
  | visited now overtime i he hregs =>
    subst he
    rw [hregs, Relay.event]
    have htest := timedOut_layout now overtime r.records r.others.usSRegHoldBuf i i.isLt
    rw [visitNode, Relay.banks_hold, htest]
    cases expired now overtime (r.records i) with
    | false => rfl
    | true =>
      rw [if_pos rfl, if_pos rfl, Relay.banks_hold]
      refine eq_layout_update r.records r.others.usSRegHoldBuf _ i _ i.isLt (recordAt_clearNode _ i) ?_
      intro a ha
      rw [clearNode_apply, if_neg ha]

end Events

section Device

/-- The requests of the flag register after which the board runs on. -/
inductive SaveRequest where
  | modbus | overtime | deviceIds
  deriving DecidableEq, Repr

def SaveRequest.bit : SaveRequest → Nat
  | .modbus => 0
  | .overtime => 1
  | .deviceIds => 3

/-- The threads beside the poll, as far as they touch the registers. -/
inductive Work where
  /-- The receive thread has a packet, or the timeout thread is at a node. -/
  | event (e : Event)
  /-- The save thread has answered a request. -/
  | answered (request : SaveRequest)

variable {F : Type} [CFloat F]

def Work.apply (s : Nodes.State F) : Work → Nodes.State F
  | .event e => Nodes.step s e
  | .answered request => { s with regs := SaveConfig.clearFlag s.regs request.bit }

/-- A turn of the save thread that does not end in a reset is, for the registers, the answers to the three requests. -/
theorem iteration_works (nullString : Config.NullString) (d d' : SaveConfig.Device) (nodeData : NodeData F)
    (h : SaveConfig.iteration nullString d = some (d', false)) :
    d'.regs = (run Work.apply ⟨d.regs, nodeData⟩
      [.answered .modbus, .answered .overtime, .answered .deviceIds]).regs := by
  rw [SaveConfig.iteration, Option.map_eq_some_iff] at h
  obtain ⟨saved, hsaved, hend⟩ := h
  obtain ⟨hregs, -⟩ := Iteration.saveBlock_regs nullString _ _ _ hsaved
  split at hend
  · cases hend
  · obtain ⟨rfl, -⟩ := Prod.mk.inj hend
    rw [hregs, Iteration.beforeSave_regs]
    rfl

/-- The link with the registers behind it, and the node structure of the receive thread. -/
structure Device (F : Type) where
  link : State
  nodeData : NodeData F

inductive Label where
  | byte (c : U8)
  | timer
  | transmit
  | poll
  | work (w : Work)

/-- Where the link has stopped the program, the other threads stand still too. -/
def Device.step (ucMBAddress : U8) (d : Device F) : Label → Device F
  | .byte c => { d with link := ModbusRtu.step ucMBAddress d.link (.byte c) }
  | .timer => { d with link := ModbusRtu.step ucMBAddress d.link .timer }
  | .transmit => { d with link := ModbusRtu.step ucMBAddress d.link .transmit }
  | .poll => { d with link := ModbusRtu.step ucMBAddress d.link .poll }
  | .work w =>
    if d.link.stopped then d
    else
      let s := w.apply ⟨d.link.banks.usSRegHoldBuf, d.nodeData⟩
      ⟨{ d.link with banks := { d.link.banks with usSRegHoldBuf := s.regs } }, s.nodeData⟩

/-- The work as the relay does it. -/
def Relay.work (F : Type) [CFloat F] (r : Relay) : Work → Relay
  | .event e => r.event F e
  | .answered request =>
    { r with others := { r.others with usSRegHoldBuf := SaveConfig.clearFlag r.others.usSRegHoldBuf request.bit } }

theorem clearFlag_layout (records : Nat → Record) (others : Table) (k : Nat) :
    SaveConfig.clearFlag (layout records others) k = layout records (SaveConfig.clearFlag others k) := by
  have hflag : ∀ n < nodeCount, configFlagAddress ∉ nodeRegisters n := by
    intro n _ ha
    rw [mem_nodeRegisters, configFlagAddress] at ha
    omega
  refine table_ext _ _ (fun n hn => ?_) fun a ha => ?_
  · rw [recordAt_layout _ _ n hn, ← recordAt_layout records others n hn]
    apply recordAt_congr
    intro a ha
    exact SaveConfig.clearFlag_other _ k a fun he => hflag n hn (he ▸ ha)
  · rw [layout_others _ _ a ha, SaveConfig.clearFlag, SaveConfig.clearFlag, layout_others _ _ _ hflag]
    by_cases he : a = configFlagAddress
    · rw [he, Function.update_self, Function.update_self]
    · rw [Function.update_of_ne he, Function.update_of_ne he, layout_others _ _ a ha]

theorem event_rest (r : Relay) (e : Event) : (r.event F e).others = r.others := by
  cases e with
  | frame now value b =>
    rw [Relay.event]
    split <;> rfl
  | visit now overtime i =>
    rw [Relay.event]
    split <;> rfl

/-- Work on the registers is work on the relay, whatever the last packet has left in the node structure. -/
theorem work_refines (r : Relay) (w : Work) (nodeData : NodeData F) :
    { r.banks with usSRegHoldBuf := (w.apply ⟨r.banks.usSRegHoldBuf, nodeData⟩).regs } = (r.work F w).banks := by
  cases w with
  | event e =>
    rw [Work.apply, event_refines r e nodeData, Relay.work, Relay.banks, Relay.banks, event_rest]
  | answered request =>
    rw [Work.apply, Relay.work, Relay.banks, Relay.banks]
    simp only [clearFlag_layout]

/-- What a piece of work does to the registers. -/
def Work.change (F : Type) [CFloat F] (w : Work) (banks : Banks) : Banks := ((Relay.ofBanks banks).work F w).banks

/-- The relay behind the registers does not matter. -/
theorem change_banks (r : Relay) (w : Work) : w.change F r.banks = (r.work F w).banks := by
  have nodeData : NodeData F := ⟨false, 0#32, CFloat.lit 0 0, CFloat.lit 0 0, 0#8, 0#8, 0#8⟩
  rw [Work.change, ← work_refines r w nodeData, ← work_refines (Relay.ofBanks r.banks) w nodeData, Relay.banks_ofBanks]

/-- A label of the device, seen from the link. -/
def Label.onLink (F : Type) [CFloat F] : Label → ModbusRtu.Label
  | .byte c => .byte c
  | .timer => .timer
  | .transmit => .transmit
  | .poll => .poll
  | .work w => .app (w.change F)

theorem step_link (ucMBAddress : U8) (d : Device F) (l : Label) :
    (d.step ucMBAddress l).link = ModbusRtu.step ucMBAddress d.link (l.onLink F) := by
  cases l with
  | byte c => rfl
  | timer => rfl
  | transmit => rfl
  | poll => rfl
  | work w =>
    have hwork := work_refines (Relay.ofBanks d.link.banks) w d.nodeData
    rw [Relay.banks_ofBanks] at hwork
    rw [Device.step, Label.onLink, ModbusRtu.step]
    by_cases hstopped : d.link.stopped = true
    · rw [if_pos hstopped, if_pos hstopped]
    · rw [if_neg hstopped, if_neg hstopped]
      simp only [hwork, Work.change]

/-- The device is the link with its threads at work on the registers. -/
theorem run_link (ucMBAddress : U8) (d : Device F) (labels : List Label) :
    (run (Device.step ucMBAddress) d labels).link =
      run (ModbusRtu.step ucMBAddress) d.link (labels.map (Label.onLink F)) := by
  induction labels generalizing d with
  | nil => rfl
  | cons l labels ih => rw [run_cons, ih, step_link, List.map_cons, run_cons]

end Device

section Sessions

variable {F : Type} [CFloat F]

/-- A turn of the host on the device. -/
structure DeviceTurn where
  arriving : List Label
  rest : List Label

def DeviceTurn.labels (t : DeviceTurn) : List Label := t.arriving ++ .timer :: t.rest

def DeviceTurn.onLink (F : Type) [CFloat F] (t : DeviceTurn) : Turn :=
  ⟨t.arriving.map (Label.onLink F), t.rest.map (Label.onLink F)⟩

theorem onLink_labels (t : DeviceTurn) : (t.onLink F).labels = t.labels.map (Label.onLink F) := by
  rw [Turn.labels, DeviceTurn.labels, List.map_append, List.map_cons]
  rfl

theorem flatMap_onLink (turns : List (DeviceTurn × Option (U8 × Request))) :
    (turns.flatMap fun t => t.1.labels).map (Label.onLink F) =
      (turns.map fun t => (t.1.onLink F, t.2)).flatMap fun t => t.1.labels := by
  rw [List.map_flatMap, List.flatMap_map]
  simp only [onLink_labels]

/-- The work among the labels. -/
def works (labels : List Label) : List Work :=
  labels.filterMap fun
    | .work w => some w
    | _ => none

theorem changes_onLink (labels : List Label) :
    changes (labels.map (Label.onLink F)) = (works labels).map (Work.change F) := by
  rw [changes, works, List.filterMap_map, List.map_filterMap]
  congr 1
  funext l
  cases l <;> rfl

/-- What the relay does: it answers a request, or one of the other threads works on it. -/
inductive Op where
  | request (address : U8) (q : Request)
  | work (w : Work)

def Op.request? : Op → Option (U8 × Request)
  | .request address q => some (address, q)
  | .work _ => none

def Op.work? : Op → Option Work
  | .request _ _ => none
  | .work w => some w

/-- The relay as a server: what it has sent, and its records. -/
def Op.serve (F : Type) [CFloat F] (ucMBAddress : U8) (server : Bytes × Relay) : Op → Bytes × Relay
  | .request address q =>
    if address = 0#8 then (server.1, Relay.ofBanks (respond q server.2.banks).2)
    else if address = ucMBAddress then
      (server.1 ++ adu ucMBAddress (respond q server.2.banks).1, Relay.ofBanks (respond q server.2.banks).2)
    else server
  | .work w => (server.1, server.2.work F w)

/-- The same on the registers. -/
def Op.onBanks (F : Type) [CFloat F] : Op → ModbusSession.Op
  | .request address q => .request address q
  | .work w => .change (w.change F)

theorem serve_onBanks (ucMBAddress : U8) (server : Bytes × Relay) (op : Op) :
    ModbusSession.Op.serve ucMBAddress (server.1, server.2.banks) (op.onBanks F) =
      ((op.serve F ucMBAddress server).1, (op.serve F ucMBAddress server).2.banks) := by
  cases op with
  | request address q =>
    rw [Op.onBanks, ModbusSession.Op.serve, Op.serve]
    by_cases hzero : address = 0#8
    · rw [if_pos hzero, if_pos hzero, Relay.banks_ofBanks]
    · rw [if_neg hzero, if_neg hzero]
      by_cases hmine : address = ucMBAddress
      · rw [if_pos hmine, if_pos hmine, Relay.banks_ofBanks]
      · rw [if_neg hmine, if_neg hmine]
  | work w => rw [Op.onBanks, ModbusSession.Op.serve, Op.serve, change_banks]

theorem run_onBanks (ucMBAddress : U8) (server : Bytes × Relay) (ops : List Op) :
    run (ModbusSession.Op.serve ucMBAddress) (server.1, server.2.banks) (ops.map (Op.onBanks F)) =
      ((run (Op.serve F ucMBAddress) server ops).1, (run (Op.serve F ucMBAddress) server ops).2.banks) := by
  induction ops generalizing server with
  | nil => rfl
  | cons op ops ih => rw [List.map_cons, run_cons, serve_onBanks, ih, run_cons]

/-- Operations on the registers whose changes come from given work are operations of the relay. -/
theorem exists_ops (ops : List ModbusSession.Op) (ws : List Work) (h : changesOf ops = ws.map (Work.change F)) :
    ∃ relay : List Op, relay.map (Op.onBanks F) = ops ∧ relay.filterMap Op.work? = ws ∧
      relay.filterMap Op.request? = requestsOf ops := by
  induction ops generalizing ws with
  | nil =>
    cases ws with
    | nil => exact ⟨[], rfl, rfl, rfl⟩
    | cons w ws => cases h
  | cons op ops ih =>
    cases op with
    | request address q =>
      obtain ⟨relay, hops, hworks, hrequests⟩ := ih ws h
      refine ⟨.request address q :: relay, ?_, hworks, ?_⟩
      · rw [List.map_cons, hops]
        rfl
      · exact congrArg ((address, q) :: ·) hrequests
    | change f =>
      cases ws with
      | nil => cases h
      | cons w ws =>
        obtain ⟨hf, hrest⟩ := List.cons_eq_cons.mp h
        obtain ⟨relay, hops, hworks, hrequests⟩ := ih ws hrest
        refine ⟨.work w :: relay, ?_, congrArg (w :: ·) hworks, hrequests⟩
        rw [List.map_cons, hops, hf]
        rfl

/-- The operations of a turn are its request, if it carries one, and the work of the other threads in its order. -/
def Behind (t : DeviceTurn × Option (U8 × Request)) (ops : List Op) : Prop :=
  ops.filterMap Op.request? = t.2.toList ∧ ops.filterMap Op.work? = works t.1.labels

theorem exists_histories (turns : List (DeviceTurn × Option (U8 × Request))) (history : List (List ModbusSession.Op))
    (h : List.Forall₂ ModbusSession.Behind (turns.map fun t => (t.1.onLink F, t.2)) history) :
    ∃ relay : List (List Op), List.Forall₂ Behind turns relay ∧
      relay.flatten.map (Op.onBanks F) = history.flatten := by
  rw [List.forall₂_map_left_iff] at h
  induction h with
  | nil => exact ⟨[], .nil, rfl⟩
  | @cons t ops turns history hone _ ih =>
    obtain ⟨relay, hbehind, hmap⟩ := ih
    obtain ⟨hrequests, hchanges⟩ := hone
    rw [onLink_labels, changes_onLink] at hchanges
    obtain ⟨first, hops, hworks, hfirst⟩ := exists_ops ops _ hchanges
    refine ⟨first :: relay, .cons ⟨hfirst.trans hrequests, hworks⟩ hbehind, ?_⟩
    rw [List.flatten_cons, List.map_append, hops, hmap, List.flatten_cons]

/-- The device when the slave has been started. -/
def powerUp (banks : Banks) (buffer : Nat → U8) (unassigned : Nat → Option EventType) (stack : NodeData F) : Device F :=
  ⟨start banks buffer unassigned, stack⟩

/-- The device after start-up and some turns. -/
def session (ucMBAddress : U8) (banks : Banks) (buffer : Nat → U8) (unassigned : Nat → Option EventType)
    (stack : NodeData F) (turns : List (DeviceTurn × Option (U8 × Request))) : Device F :=
  run (Device.step ucMBAddress) (powerUp banks buffer unassigned stack)
    (.timer :: .poll :: .poll :: turns.flatMap fun t => t.1.labels)

/-- The host sends a request, or nothing that a slave accepts, and waits until the link is quiet: because the threads
get the turns it takes, or as it happens. -/
def Attends (F : Type) [CFloat F] (ucMBAddress : U8) (s : State) (t : DeviceTurn × Option (U8 × Request)) : Prop :=
  (Prompt (t.1.onLink F) ∨ Fair ucMBAddress s (t.1.onLink F)) ∧ Carries (chars (t.1.onLink F).arriving) t.2

/-- It does so in every turn of a session. -/
def Attended (F : Type) [CFloat F] (ucMBAddress : U8) : State → List (DeviceTurn × Option (U8 × Request)) → Prop :=
  Allowed (fun s t => run (ModbusRtu.step ucMBAddress) s (t.1.onLink F).labels) (Attends F ucMBAddress)

theorem session_link (ucMBAddress : U8) (banks : Banks) (buffer : Nat → U8) (unassigned : Nat → Option EventType)
    (stack : NodeData F) (turns : List (DeviceTurn × Option (U8 × Request))) :
    (session ucMBAddress banks buffer unassigned stack turns).link =
      run (ModbusRtu.step ucMBAddress) (ready banks buffer unassigned)
        ((turns.map fun t => (t.1.onLink F, t.2)).flatMap fun t => t.1.labels) := by
  rw [← run_start ucMBAddress, ← run_append, ← flatMap_onLink]
  exact run_link ucMBAddress _ _

/-- What the host does on the device it does on the link. -/
theorem attended_onLink (ucMBAddress : U8) (s : State) (turns : List (DeviceTurn × Option (U8 × Request)))
    (h : Attended F ucMBAddress s turns) :
    Allowed (fun s t => run (ModbusRtu.step ucMBAddress) s t.1.labels)
      (fun s t => (Prompt t.1 ∨ Fair ucMBAddress s t.1) ∧ Carries (chars t.1.arriving) t.2) s
      (turns.map fun t => (t.1.onLink F, t.2)) := by
  induction turns generalizing s with
  | nil => trivial
  | cons t turns ih => exact ⟨h.1, ih _ h.2⟩

/-- The schedule that brings the link to rest. -/
def resting : List Label := List.replicate 4 .poll ++ (List.replicate 258 .transmit ++ List.replicate 2 .poll)

theorem resting_onLink : resting.map (Label.onLink F) = restPlan := by
  rw [resting, restPlan, List.map_append, List.map_append, List.map_replicate, List.map_replicate, List.map_replicate]
  rfl

theorem works_append (first second : List Label) : works (first ++ second) = works first ++ works second :=
  List.filterMap_append

theorem works_resting : works resting = [] := by
  have hnone (n : Nat) (l : Label) (hl : works [l] = []) : works (List.replicate n l) = [] := by
    induction n with
    | zero => rfl
    | succ n ih => rw [List.replicate_succ, ← List.singleton_append, works_append, hl, ih, List.nil_append]
  rw [resting, works_append, works_append, hnone 4 .poll rfl, hnone 258 .transmit rfl, hnone 2 .poll rfl]
  rfl

/-- The timeout thread is at node 1. -/
def visitOfOne : Event := .visit 9#32 60#32 ⟨1, by decide⟩

/-- A request for the temperature of node 0, with a frame of the node ahead of it; behind it the timeout thread is at
another node and the save thread answers a request. -/
def sampleTurn : DeviceTurn :=
  ⟨.work (.event (.frame 7#32 ⟨60#8, 30#8⟩ fun i => frameOne.getD i 0#8)) ::
      (adu 1#8 (Request.readHolding 8#16 1#16).pdu).map .byte,
    .work (.event visitOfOne) :: .work (.answered .deviceIds) :: resting⟩

theorem sampleTurn_chars : chars (sampleTurn.onLink F).arriving = adu 1#8 (Request.readHolding 8#16 1#16).pdu := by
  rw [DeviceTurn.onLink, sampleTurn, chars, List.map_cons, List.map_map, List.filterMap_cons_none rfl,
    List.filterMap_map]
  exact List.filterMap_some

theorem sampleTurn_prompt : Prompt (sampleTurn.onLink F) := by
  have hrest : (sampleTurn.onLink F).rest = Label.onLink F (.work (.event visitOfOne)) ::
      Label.onLink F (.work (.answered .deviceIds)) :: restPlan :=
    congrArg (fun plan => _ :: _ :: plan) resting_onLink
  refine ⟨by simp [DeviceTurn.onLink, sampleTurn, Label.onLink], ?_, ?_⟩
  · rw [hrest]
    intro c hc
    rcases List.mem_cons.mp hc with hc | hc
    · cases hc
    · rcases List.mem_cons.mp hc with hc | hc
      · cases hc
      · exact no_byte_restPlan c hc
  · rw [hrest]
    exact (List.sublist_cons_self _ _).trans (List.sublist_cons_self _ _)

/-- The frame of the sample is one of device 1, which is registered as node 0. -/
theorem sampleFrame_node :
    node registeredOne (.frame 7#32 ⟨60#8, 30#8⟩ fun i => frameOne.getD i 0#8) = some 0 := by
  rw [Nodes.node_frame]
  exact ⟨by decide, by decide, by unfold IdMatches; decide, fun j hj => absurd hj (Nat.not_lt_zero j)⟩

/-- Every session with the device ends as the same session with the relay: the bytes on the line are its replies, and
the registers are its records, laid out by the register map. -/
theorem device_refines_relay (ucMBAddress : U8) (banks : Banks) (buffer : Nat → U8)
    (unassigned : Nat → Option EventType) (stack : NodeData F) (turns : List (DeviceTurn × Option (U8 × Request)))
    (hturns : Attended F ucMBAddress (ready banks buffer unassigned) turns) :
    let d := session ucMBAddress banks buffer unassigned stack turns
    ∃ history : List (List Op), List.Forall₂ Behind turns history ∧
      let relay := run (Op.serve F ucMBAddress) ([], Relay.ofBanks banks) history.flatten
      d.link.line = relay.1 ∧ d.link.banks = relay.2.banks := by
  intro d
  have hlink := session_link ucMBAddress banks buffer unassigned stack turns
  obtain ⟨hallowed, -⟩ := allowed_fair ucMBAddress (quiet_ready banks buffer unassigned)
    (intact_ready banks buffer unassigned) _ (attended_onLink ucMBAddress _ turns hturns)
  obtain ⟨history, hhistory, hserved⟩ := session_linear ucMBAddress _ (quiet_ready banks buffer unassigned) _ hallowed
  obtain ⟨relay, hbehind, hmap⟩ := exists_histories turns history hhistory
  refine ⟨relay, hbehind, ?_⟩
  have hrun := run_onBanks (F := F) ucMBAddress ([], Relay.ofBanks banks) relay.flatten
  rw [hmap, Relay.banks_ofBanks] at hrun
  have hboth := hserved.symm.trans hrun
  rw [← hlink] at hboth
  exact Prod.mk.inj hboth

theorem device_refines_relay_one_turn :
    let banks := { blankBanks with usSRegHoldBuf := registeredOne }
    let turns := [(sampleTurn, some (1#8, Request.readHolding 8#16 1#16))]
    let d := session 1#8 banks (fun _ => 0#8) (fun _ => none) blankNode turns
    ∃ history : List (List Op), List.Forall₂ Behind turns history ∧
      let relay := run (Op.serve Float 1#8) ([], Relay.ofBanks banks) history.flatten
      d.link.line = relay.1 ∧ d.link.banks = relay.2.banks := by
  intro banks turns d
  have hcarries : Carries (chars (sampleTurn.onLink Float).arriving) (some (1#8, Request.readHolding 8#16 1#16)) := by
    refine ⟨sampleTurn_chars, ?_⟩
    rw [sampleTurn_chars]
    decide
  exact device_refines_relay 1#8 banks (fun _ => 0#8) (fun _ => none) blankNode turns
    ⟨⟨.inl sampleTurn_prompt, hcarries⟩, trivial⟩

end Sessions

section Delivery

variable {F : Type} [CFloat F]

theorem event_record_other (r : Relay) (e : Event) (n : Nat) (h : node r.others.usSRegHoldBuf e ≠ some n) :
    (r.event F e).records n = r.records n := by
  cases e with
  | frame now value b =>
    rw [Relay.event]
    cases hnode : node r.others.usSRegHoldBuf (.frame now value b) with
    | none => rfl
    | some m =>
      have hne : n ≠ m := by
        rintro rfl
        exact h hnode
      exact Function.update_of_ne hne _ _
  | visit now overtime i =>
    rw [Relay.event]
    split
    · exact Function.update_of_ne (fun he => h (congrArg some he.symm)) _ _
    · rfl

/-- The work is for another node, or for none. -/
def Spares (regs : Table) (n : Nat) (w : Work) : Prop := ∀ e, w = .event e → node regs e ≠ some n

theorem work_record_other (r : Relay) (w : Work) (n : Nat) (h : Spares r.others.usSRegHoldBuf n w) :
    (r.work F w).records n = r.records n := by
  cases w with
  | event e => exact event_record_other r e n (h e rfl)
  | answered request => rfl

/-- No work changes the IDs. -/
theorem work_ids (r : Relay) (w : Work) : SameIds (r.work F w).others.usSRegHoldBuf r.others.usSRegHoldBuf := by
  intro a hlo _
  cases w with
  | event e => rw [Relay.work, event_rest]
  | answered request =>
    apply SaveConfig.clearFlag_other
    rw [configFlagAddress]
    omega

theorem run_ids (r : Relay) (ws : List Work) :
    SameIds (run (Relay.work F) r ws).others.usSRegHoldBuf r.others.usSRegHoldBuf := by
  have hstep (s : Relay) (w : Work) (hs : SameIds s.others.usSRegHoldBuf r.others.usSRegHoldBuf) :
      SameIds (s.work F w).others.usSRegHoldBuf r.others.usSRegHoldBuf := (work_ids s w).trans hs
  exact invariant hstep r ws fun _ _ _ => rfl

theorem run_record_other (r : Relay) (ws : List Work) (n : Nat) (regs : Table)
    (hids : SameIds r.others.usSRegHoldBuf regs) (h : ∀ w ∈ ws, Spares regs n w) :
    (run (Relay.work F) r ws).records n = r.records n := by
  induction ws generalizing r with
  | nil => rfl
  | cons w ws ih =>
    have hspares : Spares r.others.usSRegHoldBuf n w := by
      intro e he
      rw [Nodes.node_congr _ _ hids]
      exact h w List.mem_cons_self e he
    rw [run_cons, ih _ ((work_ids r w).trans hids) fun v hv => h v (List.mem_cons_of_mem w hv),
      work_record_other r w n hspares]

/-- A frame renews the record of its node, and work for other nodes does not touch it. -/
theorem run_record (r : Relay) (before after : List Work) (now : U32) (value : StatusRegisters) (b : Nat → U8)
    (n : Nat) (hnode : node r.others.usSRegHoldBuf (.frame now value b) = some n)
    (hafter : ∀ w ∈ after, Spares r.others.usSRegHoldBuf n w) :
    (run (Relay.work F) r (before ++ .event (.frame now value b) :: after)).records n =
      received F now value b ((run (Relay.work F) r before).records n) := by
  have hids := run_ids (F := F) r before
  rw [run_append, run_cons, run_record_other _ after n _ ((work_ids _ _).trans hids) hafter, Relay.work, Relay.event,
    Nodes.node_congr _ _ hids, hnode]
  exact Function.update_self _ _ _

/-- Changes of the registers one after the other are work on the relay. -/
theorem applied_works (r : Relay) (ws : List Work) :
    applied (ws.map (Work.change F)) r.banks = (run (Relay.work F) r ws).banks := by
  induction ws generalizing r with
  | nil => rfl
  | cons w ws ih => rw [List.map_cons, run_cons, ← ih, ← change_banks]; rfl

/-- A turn with a request for this slave adds the reply to the line, from the registers as they are at some point
after the request has arrived. -/
theorem turn_reply (ucMBAddress : U8) (hown : ucMBAddress ≠ 0#8) (s : State) (h : Quiet s) (t : Turn)
    (hfair : Fair ucMBAddress s t) (q : Request) (hrequest : chars t.arriving = adu ucMBAddress q.pdu)
    (hfit : (adu ucMBAddress q.pdu).length ≤ mbSerPduSizeMax) :
    ∃ before after, changes t.rest = before ++ after ∧ (run (ModbusRtu.step ucMBAddress) s t.labels).line =
      s.line ++ adu ucMBAddress (respond q (applied (changes t.arriving ++ before) s.banks)).1 := by
  have hne : chars t.arriving ≠ [] := by
    rw [hrequest]
    exact List.cons_ne_nil _ _
  obtain ⟨before, after, hsplit, hline, -⟩ := turn_served h t hfair hne (hrequest ▸ hfit)
  have hserve := serve_adu ucMBAddress ucMBAddress q s.ucRTUBuf
    (applied (changes t.arriving ++ before) s.banks) s.line hfit
  rw [ModbusSession.Op.serve, if_neg hown, if_pos rfl] at hserve
  rw [hrequest, (Prod.mk.inj hserve).1] at hline
  exact ⟨before, after, hsplit, hline⟩

/-- While a request arrives, the registers change by the work of the other threads. -/
theorem arriving_banks (ucMBAddress : U8) (d : Device F) (h : Quiet d.link) (labels : List Label)
    (hl : .timer ∉ labels.map (Label.onLink F)) :
    (run (Device.step ucMBAddress) d labels).link.banks =
      (run (Relay.work F) (Relay.ofBanks d.link.banks) (works labels)).banks := by
  obtain ⟨event, -, harrived⟩ := run_arriving ucMBAddress h _ hl
  rw [run_link, harrived, ← applied_works, changes_onLink, Relay.banks_ofBanks]
  rfl

theorem respond_registers (banks : Banks) (records : Nat → Record) (others : Table) (n : Nat) (r : Record)
    (address count : U16) (hn : n < nodeCount) (hbanks : banks.usSRegHoldBuf = layout records others)
    (hrecord : records n = r) (hcount : 1 ≤ count.toNat ∧ count.toNat ≤ 125)
    (hregisters : ∀ a, address.toNat ≤ a → a < address.toNat + count.toNat → a ∈ nodeRegisters n) :
    (respond (.readHolding address count) banks).1 =
      reading 3#8 (block (layout (fun _ => r) zeroTable) address.toNat count.toNat) := by
  have hlast := nodeRegisters_lt n _ hn (hregisters (address.toNat + count.toNat - 1) (by omega) (by omega))
  have hblock : block banks.usSRegHoldBuf address.toNat count.toNat =
      block (layout (fun _ => r) zeroTable) address.toNat count.toNat := by
    apply block_congr
    intro a hlo hhi
    apply eq_of_recordAt _ _ n _ a (hregisters a hlo hhi)
    rw [hbanks, recordAt_layout _ _ n hn, recordAt_layout _ _ n hn, hrecord]
  rw [respond, respondRead, if_pos hcount, if_pos (by omega), hblock]

/-- End to end: a frame of a registered node that is received before a request for registers of this node has arrived
completely, with no later frame and no visit for the node until the link is quiet again, is what the host reads,
whatever the schedule and the other nodes. -/
theorem frame_reaches_host (ucMBAddress : U8) (hown : ucMBAddress ≠ 0#8) (banks : Banks) (buffer : Nat → U8)
    (unassigned : Nat → Option EventType) (stack : NodeData F) (turns : List (DeviceTurn × Option (U8 × Request)))
    (hturns : Attended F ucMBAddress (ready banks buffer unassigned) turns) (last : DeviceTurn) (n : Nat)
    (address count : U16) (hcount : 1 ≤ count.toNat ∧ count.toNat ≤ 125)
    (hregisters : ∀ a, address.toNat ≤ a → a < address.toNat + count.toNat → a ∈ nodeRegisters n)
    (hrequest : chars (last.onLink F).arriving = adu ucMBAddress (Request.readHolding address count).pdu)
    (now : U32) (value : StatusRegisters) (b : Nat → U8) (before after : List Label)
    (hframe : last.arriving = before ++ .work (.event (.frame now value b)) :: after) :
    let d := session ucMBAddress banks buffer unassigned stack turns
    Prompt (last.onLink F) ∨ Fair ucMBAddress d.link (last.onLink F) →
    node d.link.banks.usSRegHoldBuf (.frame now value b) = some n →
    (∀ w ∈ works (after ++ last.rest), Spares d.link.banks.usSRegHoldBuf n w) →
    let old := recordAt (run (Device.step ucMBAddress) d before).link.banks.usSRegHoldBuf n
    (run (Device.step ucMBAddress) d last.labels).link.line = d.link.line ++ adu ucMBAddress (reading 3#8
      (block (layout (fun _ => received F now value b old) zeroTable) address.toNat count.toNat)) := by
  intro d hlast hnode hspares old
  obtain ⟨-, hquiet, hintact⟩ := allowed_fair ucMBAddress (quiet_ready banks buffer unassigned)
    (intact_ready banks buffer unassigned) _ (attended_onLink ucMBAddress _ turns hturns)
  rw [← session_link ucMBAddress banks buffer unassigned stack turns] at hquiet hintact
  have hfair : Fair ucMBAddress d.link (last.onLink F) :=
    hlast.elim (fair_of_prompt ucMBAddress hquiet hintact (last.onLink F)) id
  obtain ⟨first, rest, hsplit, hline⟩ := turn_reply ucMBAddress hown d.link hquiet (last.onLink F) hfair _ hrequest
    (by simp [adu_length, pdu_length, Request.size, mbSerPduSizeMax])
  rw [DeviceTurn.onLink, changes_onLink, List.map_eq_append_iff] at hsplit
  obtain ⟨early, late, hearly, rfl, -⟩ := hsplit
  -- the work that the reply has seen: all of it while the request arrived, and some behind it
  have hseen : changes (last.onLink F).arriving ++ early.map (Work.change F) =
      (works before ++ .event (.frame now value b) :: (works after ++ early)).map (Work.change F) := by
    rw [DeviceTurn.onLink, changes_onLink, hframe, works_append, ← List.map_append, List.append_assoc]
    rfl
  have hbefore : .timer ∉ before.map (Label.onLink F) := by
    intro hmem
    apply hfair.gapless
    rw [DeviceTurn.onLink, hframe, List.map_append]
    exact List.mem_append_left _ hmem
  have hold : old = (run (Relay.work F) (Relay.ofBanks d.link.banks) (works before)).records n := by
    show recordAt (run (Device.step ucMBAddress) d before).link.banks.usSRegHoldBuf n = _
    rw [arriving_banks ucMBAddress d hquiet before hbefore, Relay.banks_hold,
      recordAt_layout _ _ n (Nodes.node_lt _ _ _ hnode)]
  have hrecord := run_record (F := F) (Relay.ofBanks d.link.banks) (works before) (works after ++ early) now value b n
    hnode (by
      intro w hw
      apply hspares w
      rw [works_append, hearly, ← List.append_assoc]
      exact List.mem_append_left _ hw)
  rw [← hold] at hrecord
  have happlied := applied_works (F := F) (Relay.ofBanks d.link.banks)
    (works before ++ .event (.frame now value b) :: (works after ++ early))
  rw [Relay.banks_ofBanks] at happlied
  rw [run_link, ← onLink_labels, hline, hseen, happlied, respond_registers _ _ _ n _ address count
    (Nodes.node_lt _ _ _ hnode) (Relay.banks_hold _) hrecord hcount hregisters]

/-- The frame of device 1 for node 0, and the temperature read behind it. -/
theorem frame_reaches_host_sample :
    let d := session 1#8 { blankBanks with usSRegHoldBuf := registeredOne } (fun _ => 0#8) (fun _ => none) blankNode []
    let r := received Float 7#32 ⟨60#8, 30#8⟩ (fun i => frameOne.getD i 0#8) (recordAt d.link.banks.usSRegHoldBuf 0)
    (run (Device.step 1#8) d sampleTurn.labels).link.line =
      d.link.line ++ adu 1#8 (reading 3#8 (block (layout (fun _ => r) zeroTable) 8 1)) := by
  refine frame_reaches_host 1#8 (by decide) { blankBanks with usSRegHoldBuf := registeredOne } (fun _ => 0#8)
    (fun _ => none) blankNode [] trivial sampleTurn 0 8#16 1#16 (by decide)
    (fun a hlo hhi => (mem_nodeRegisters 0 a).mpr (by simp at hlo hhi; omega)) sampleTurn_chars 7#32 ⟨60#8, 30#8⟩
    (fun i => frameOne.getD i 0#8) [] _ rfl (.inl sampleTurn_prompt) sampleFrame_node ?_
  have hworks : works ((adu 1#8 (Request.readHolding 8#16 1#16).pdu).map .byte ++ sampleTurn.rest) =
      [.event visitOfOne, .answered .deviceIds] := by
    have hrest : works sampleTurn.rest = .event visitOfOne :: .answered .deviceIds :: works resting := rfl
    rw [works_resting] at hrest
    rw [works_append, hrest]
    simp [works]
  intro w hw e he
  rw [hworks] at hw
  subst he
  simp only [List.mem_cons, Work.event.injEq, reduceCtorEq, List.not_mem_nil, or_false] at hw
  rw [hw, visitOfOne, node]
  decide

end Delivery

end DataReceiveRelay.RelayModel
