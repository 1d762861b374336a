import DataReceiveRelay.DeviceIdFile
import DataReceiveRelay.Nodes

/-!
# Registered transmitters

The host registers a transmitter by two 16-bit writes into its slot, and the ID
file of an earlier session fills all slots. Frames may arrive between the two
writes. An empty slot is not marked in any way: it holds the ID zero, and the
search compares it like any other.
-/

namespace DataReceiveRelay.Registration

open Words Runs Registers Radio DataFrame Receive DeviceIdFile

variable {F : Type} [CFloat F]

inductive Event where
  /-- The host writes the low word of an ID. -/
  | low (i : Fin 256) (id : U32) (nonzero : id ≠ 0#32)
  /-- The host writes the high word of an ID. -/
  | high (i : Fin 256) (id : U32) (nonzero : id ≠ 0#32)
  /-- The file saved from some table is loaded. -/
  | load (nullInt : U32) (saved : Table)
  /-- A packet with a good CRC. -/
  | frame (now : U32) (value : StatusRegisters) (b : Nat → U8)

def step (s : Nodes.State F) : Event → Nodes.State F
  | .low i id _ => { s with regs := Function.update s.regs (nodeDeviceIdFirstAddress + 2 * i) (Words.low id) }
  | .high i id _ => { s with regs := Function.update s.regs (nodeDeviceIdFirstAddress + 1 + 2 * i) (Words.high id) }
  | .load nullInt saved =>
    { s with regs := ((readDeviceIdFile nullInt (some (saveDeviceIdFile saved)) s.regs).2.map Reading.regs).getD s.regs }
  | .frame now value b => Nodes.step s (.frame now value b)

/-- The device a frame comes from. -/
def sender (b : Nat → U8) : U32 := calculateDeviceId fun k => b (2 + k)

/-- An ID counts as registered from the first of its writes on; an empty slot in a file registers nothing. -/
def Event.Registers : Event → U32 → Prop
  | .low _ id _, d => id = d
  | .high _ id _, d => id = d
  | .load _ saved, d => d ≠ 0#32 ∧ ∃ i < nodeCount, idAt saved i = d
  | .frame _ _ _, _ => False

section Origins

/-- For each slot, the IDs its low and its high word were taken from. -/
abbrev Origins := Nat → U32 × U32

def originStep (o : Origins) : Event → Origins
  | .low i id _ => Function.update o i (id, (o i).2)
  | .high i id _ => Function.update o i ((o i).1, id)
  | .load _ saved => fun i => (idAt saved i, idAt saved i)
  | .frame _ _ _ => o

def origins (events : List Event) : Origins := run originStep (fun _ => (0#32, 0#32)) events

theorem origins_snoc (events : List Event) (e : Event) :
    origins (events ++ [e]) = originStep (origins events) e := run_append _ _ _ _

/-- The words of a slot are those of its origins. -/
def Holds (regs : Table) (o : Origins) : Prop :=
  ∀ i < nodeCount, regs (nodeDeviceIdFirstAddress + 2 * i) = Words.low (o i).1 ∧
    regs (nodeDeviceIdFirstAddress + 1 + 2 * i) = Words.high (o i).2

theorem holds_low (regs : Table) (o : Origins) (k : Nat) (id : U32) (h : Holds regs o) :
    Holds (Function.update regs (nodeDeviceIdFirstAddress + 2 * k) (Words.low id))
      (Function.update o k (id, (o k).2)) := by
  intro i hi
  obtain ⟨hlow, hhigh⟩ := h i hi
  have hodd : nodeDeviceIdFirstAddress + 1 + 2 * i ≠ nodeDeviceIdFirstAddress + 2 * k := by omega
  rw [Function.update_of_ne hodd]
  by_cases hik : i = k
  · subst hik
    simpa using hhigh
  · have hne : nodeDeviceIdFirstAddress + 2 * i ≠ nodeDeviceIdFirstAddress + 2 * k := by omega
    rw [Function.update_of_ne hne, Function.update_of_ne hik]
    exact ⟨hlow, hhigh⟩

theorem holds_high (regs : Table) (o : Origins) (k : Nat) (id : U32) (h : Holds regs o) :
    Holds (Function.update regs (nodeDeviceIdFirstAddress + 1 + 2 * k) (Words.high id))
      (Function.update o k ((o k).1, id)) := by
  intro i hi
  obtain ⟨hlow, hhigh⟩ := h i hi
  have heven : nodeDeviceIdFirstAddress + 2 * i ≠ nodeDeviceIdFirstAddress + 1 + 2 * k := by omega
  rw [Function.update_of_ne heven]
  by_cases hik : i = k
  · subst hik
    simpa using hlow
  · have hne : nodeDeviceIdFirstAddress + 1 + 2 * i ≠ nodeDeviceIdFirstAddress + 1 + 2 * k := by omega
    rw [Function.update_of_ne hne, Function.update_of_ne hik]
    exact ⟨hlow, hhigh⟩

theorem holds_of_ids (regs saved : Table) (h : ∀ i < nodeCount, idAt regs i = idAt saved i) :
    Holds regs fun i => (idAt saved i, idAt saved i) := by
  intro i hi
  change _ = Words.low (idAt saved i) ∧ _ = Words.high (idAt saved i)
  rw [← h i hi, idAt, low_join, high_join]
  exact ⟨rfl, rfl⟩

theorem holds_congr (regs regs' : Table) (o : Origins) (h : Holds regs o) (hids : Nodes.SameIds regs' regs) :
    Holds regs' o := by
  intro i hi
  obtain ⟨hlow, hhigh⟩ := h i hi
  simp only [nodeCount, nodeDeviceIdFirstAddress] at *
  rw [hids _ (by omega) (by omega), hids _ (by omega) (by omega)]
  exact ⟨hlow, hhigh⟩

theorem step_holds (s : Nodes.State F) (o : Origins) (e : Event) (h : Holds s.regs o) :
    Holds (step s e).regs (originStep o e) := by
  cases e with
  | low i id nonzero => exact holds_low s.regs o i id h
  | high i id nonzero => exact holds_high s.regs o i id h
  | load nullInt saved =>
    obtain ⟨r, hread, hids, -⟩ := readDeviceIdFile_lines nullInt (idAt saved) s.regs
    rw [← saveDeviceIdFile_eq] at hread
    simp only [step, hread, originStep, Option.map_some, Option.getD_some]
    exact holds_of_ids r.regs saved hids
  | frame now value b => exact holds_congr s.regs _ o h (Nodes.step_ids s _)

/-- The table at power-up, before anything is registered. -/
def start (stack : NodeData F) : Nodes.State F := ⟨zeroTable, stack⟩

theorem run_holds (stack : NodeData F) (events : List Event) :
    Holds (run step (start stack) events).regs (origins events) := by
  induction events using List.reverseRecOn with
  | nil =>
    have hlow : Words.low 0#32 = 0#16 := by decide
    have hhigh : Words.high 0#32 = 0#16 := by decide
    intro i hi
    exact ⟨hlow.symm, hhigh.symm⟩
  | append_singleton events e ih =>
    rw [run_append, run_cons, run_nil, origins_snoc]
    exact step_holds _ _ e ih

/-- Whatever ends up in a slot, both its words are empty or were registered. -/
theorem origins_registered (events : List Event) (i : Nat) (hi : i < nodeCount) :
    ((origins events i).1 = 0#32 ∨ ∃ e ∈ events, e.Registers (origins events i).1) ∧
      ((origins events i).2 = 0#32 ∨ ∃ e ∈ events, e.Registers (origins events i).2) := by
  have hmono (events : List Event) (e : Event) (id : U32) (h : id = 0#32 ∨ ∃ e ∈ events, e.Registers id) :
      id = 0#32 ∨ ∃ e' ∈ events ++ [e], e'.Registers id := by
    rcases h with h | ⟨e', he', h⟩
    · exact .inl h
    · exact .inr ⟨e', List.mem_append_left _ he', h⟩
  have hnew (events : List Event) (e : Event) (id : U32) (h : e.Registers id) :
      id = 0#32 ∨ ∃ e' ∈ events ++ [e], e'.Registers id :=
    .inr ⟨e, List.mem_append_right _ (List.mem_singleton_self e), h⟩
  induction events using List.reverseRecOn with
  | nil => exact ⟨.inl rfl, .inl rfl⟩
  | append_singleton events e ih =>
    obtain ⟨hlow, hhigh⟩ := ih
    rw [origins_snoc]
    cases e with
    | low k id nonzero =>
      by_cases hik : i = k
      · subst hik
        simp only [originStep, Function.update_self]
        exact ⟨hnew events _ _ rfl, hmono events _ _ hhigh⟩
      · simp only [originStep, Function.update_of_ne hik]
        exact ⟨hmono events _ _ hlow, hmono events _ _ hhigh⟩
    | high k id nonzero =>
      by_cases hik : i = k
      · subst hik
        simp only [originStep, Function.update_self]
        exact ⟨hmono events _ _ hlow, hnew events _ _ rfl⟩
      · simp only [originStep, Function.update_of_ne hik]
        exact ⟨hmono events _ _ hlow, hmono events _ _ hhigh⟩
    | load nullInt saved =>
      have hfile : idAt saved i = 0#32 ∨ ∃ e ∈ events ++ [.load nullInt saved], e.Registers (idAt saved i) := by
        by_cases hz : idAt saved i = 0#32
        · exact .inl hz
        · exact hnew events (.load nullInt saved) _ ⟨hz, i, hi, rfl⟩
      exact ⟨hfile, hfile⟩
    | frame now value b => exact ⟨hmono events _ _ hlow, hmono events _ _ hhigh⟩

end Origins

section Frames

/-- No slot is taken for the ID by mistake: none is empty when the ID is zero, and none that holds the words of
two different IDs reads as it. -/
def NotMistaken (events : List Event) (d : U32) : Prop :=
  ∀ i < 256, (origins events i = (0#32, 0#32) → d ≠ 0#32) ∧
    ((origins events i).1 ≠ (origins events i).2 →
      join (Words.low (origins events i).1) (Words.high (origins events i).2) ≠ d)

/-- An ID that nobody registered is found in a slot only by mistake. -/
theorem idAt_ne_iff (stack : NodeData F) (events : List Event) (d : U32) (hd : ∀ e ∈ events, ¬e.Registers d) :
    (∀ i < nodeCount, d ≠ idAt (run step (start stack) events).regs i) ↔ NotMistaken events d := by
  apply forall₂_congr
  intro i hi
  obtain ⟨hlow, hhigh⟩ := run_holds stack events i hi
  obtain ⟨hfrom, -⟩ := origins_registered events i hi
  rw [idAt, hlow, hhigh]
  generalize origins events i = o at *
  obtain ⟨a, b⟩ := o
  by_cases hab : a = b
  · subst hab
    have hempty : a = d → a = 0#32 := by
      rintro rfl
      rcases hfrom with hz | ⟨e, he, hreg⟩
      · exact hz
      · exact absurd hreg (hd e he)
    simp only [join_low_high, Prod.mk.injEq, and_self, ne_eq, not_true, false_implies, and_true]
    constructor
    · rintro hne rfl rfl
      exact hne rfl
    · rintro hne rfl
      exact hne (hempty rfl) (hempty rfl)
  · have hpair : (a, b) ≠ (0#32, 0#32) := by
      rintro h
      rw [Prod.mk.injEq] at h
      exact hab (h.1.trans h.2.symm)
    simp only [hpair, hab, ne_eq, not_false_eq_true, false_implies, true_and, forall_const]
    exact ne_comm

/-- A stored frame moves the launch counter of its node, which is one of the data registers. -/
theorem frame_unchanged_iff (s : Nodes.State F) (now : U32) (value : StatusRegisters) (b : Nat → U8) :
    (∀ a, 0x008 ≤ a ∧ a ≤ 0x707 ∨ 0xA08 ≤ a ∧ a ≤ 0xC07 → (step s (.frame now value b)).regs a = s.regs a) ↔
      (GoodFrame b → ∀ i < nodeCount, sender b ≠ idAt s.regs i) := by
  change (∀ a, _ → receivedTable now value b s.nodeData s.regs a = s.regs a) ↔ _
  constructor
  · intro hsame hg i hi hid
    obtain ⟨n, hn, hm, hleast⟩ := exists_least_match b s.regs ⟨i, hi, (idMatches_iff b s.regs i).mpr hid⟩
    have hv := storeFrame_values now (found value b s.nodeData n) s.regs n (found_valid value b s.nodeData hg n)
      (found_number value b s.nodeData n hn)
    rw [← receivedTable_known now value b s.nodeData s.regs hg n hn hm hleast] at hv
    apply launch_unchanged s.regs n
    rw [← hv.2.2.2.1]
    simp only [nodeCount, launchAt, launchNumberFiratAddress] at hn ⊢
    rw [hsame _ (.inl (by omega)), hsame _ (.inl (by omega))]
  · intro hnone a _
    rw [receivedTable_other]
    rintro ⟨hg, i, hi, hm⟩
    exact hnone hg i hi ((idMatches_iff b s.regs i).mp hm)

/-- After any history, a frame of a transmitter that nobody registered leaves the data registers alone exactly when
it is not a good frame or no slot is mistaken for its ID. -/
theorem unregistered_ignored_iff (stack : NodeData F) (events : List Event) (now : U32) (value : StatusRegisters)
    (b : Nat → U8) (hd : ∀ e ∈ events, ¬e.Registers (sender b)) :
    (∀ a, 0x008 ≤ a ∧ a ≤ 0x707 ∨ 0xA08 ≤ a ∧ a ≤ 0xC07 →
      (run step (start stack) (events ++ [.frame now value b])).regs a = (run step (start stack) events).regs a) ↔
      (GoodFrame b → NotMistaken events (sender b)) := by
  rw [run_append, run_cons, run_nil, frame_unchanged_iff, idAt_ne_iff stack events (sender b) hd]

/-- The host has written device 1 into slot 0. -/
def firstRegistration : List Event := [.low 0 1#32 (by decide), .high 0 1#32 (by decide)]

theorem firstRegistration_origins (i : Nat) :
    origins firstRegistration i = if i = 0 then (1#32, 1#32) else (0#32, 0#32) := by
  by_cases hi : i = 0
  · subst hi
    rfl
  · simp [origins, firstRegistration, run, originStep, hi]

theorem firstRegistration_registers (d : U32) (h : d ≠ 1#32) : ∀ e ∈ firstRegistration, ¬e.Registers d := by
  intro e he
  simp only [firstRegistration, List.mem_cons, List.not_mem_nil, or_false] at he
  rcases he with rfl | rfl <;> exact fun h' => h h'.symm

/-- A frame of device 2. -/
def strangerFrame : Nat → U8 :=
  fun j => [0x5A#8, 0#8, 0#8, 0#8, 0#8, 2#8, 1#8, 0#8, 1#8, 0#8, 0#8, 0x5E#8].getD j 0#8

theorem stranger_ignored :
    (∀ e ∈ firstRegistration, ¬e.Registers (sender strangerFrame)) ∧
    ∀ a, 0x008 ≤ a ∧ a ≤ 0x707 ∨ 0xA08 ≤ a ∧ a ≤ 0xC07 →
      (run step (start blankNode) (firstRegistration ++ [.frame 7#32 ⟨0x20#8, 0x80#8⟩ strangerFrame])).regs a =
        (run step (start blankNode) firstRegistration).regs a := by
  have hd := firstRegistration_registers (sender strangerFrame) (by decide)
  refine ⟨hd, (unregistered_ignored_iff blankNode firstRegistration 7#32 ⟨0x20#8, 0x80#8⟩ strangerFrame hd).mpr ?_⟩
  intro _ i _
  have hid : sender strangerFrame ≠ 0#32 := by decide
  refine ⟨fun _ => hid, fun htorn => absurd ?_ htorn⟩
  rw [firstRegistration_origins]
  split <;> rfl

/-- A frame of device 0, with one slot taken: it is stored for the first empty slot. -/
theorem device_zero_stored :
    (∀ e ∈ firstRegistration, ¬e.Registers (sender fun j => frameZero.getD j 0#8)) ∧
    ¬∀ a, 0x008 ≤ a ∧ a ≤ 0x707 ∨ 0xA08 ≤ a ∧ a ≤ 0xC07 →
      (run step (start blankNode)
          (firstRegistration ++ [.frame 7#32 ⟨0x20#8, 0x80#8⟩ fun j => frameZero.getD j 0#8])).regs a =
        (run step (start blankNode) firstRegistration).regs a := by
  refine ⟨firstRegistration_registers _ (by decide), ?_⟩
  intro hsame
  have hcount := hsame 0x20A (by decide)
  revert hcount
  decide

end Frames

end DataReceiveRelay.Registration
