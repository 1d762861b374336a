import DataReceiveRelay.DeviceIdFile

/-!
# Host ID updates against the save thread

The save thread tests bit 3 of the flag register, writes `/DeviceId.csv` row by
row and clears the bit when the file is closed. The flash driver sleeps inside
the file operations, so a Modbus request can be served between any two of its
steps. `flagged` remembers the table as of the last request.
-/

namespace DataReceiveRelay.IdSave

open Words Runs Registers DeviceIdFile

/-- Where the save thread stands; `row 256` is about to close the file. -/
inductive Pc where
  | test
  | opening
  | row (i : Nat)
  | clearing
  deriving DecidableEq, Repr

structure State where
  regs : Table
  file : Option Bytes
  str : Bytes
  pc : Pc
  flagged : Option Table

/-- A request that writes ID registers and raises the flag in one go. -/
structure HostWrite where
  writes : List (Nat × U16)
  inside : ∀ w ∈ writes, 0x708 ≤ w.1 ∧ w.1 ≤ 0x907

def HostWrite.apply (w : HostWrite) (regs : Table) : Table :=
  Function.update (assign regs w.writes) configFlagAddress
    (setBit (assign regs w.writes configFlagAddress) 3)

inductive Label where
  | host (w : HostWrite)
  | save

/-- One step of the save thread, the block for bit 3 of `SaveConfigThreadEntry`. -/
def saveStep (s : State) : State :=
  match s.pc with
  | .test => if hasBit (s.regs configFlagAddress) 3 then { s with pc := .opening } else s
  | .opening => { s with file := some [], str := printBuffer, pc := .row 0 }
  | .row i =>
    if i ≤ 255 then
      { s with file := s.file.map (· ++ (saveDeviceIdRow s.str s.regs i).2),
               str := (saveDeviceIdRow s.str s.regs i).1, pc := .row (i + 1) }
    else { s with pc := .clearing }
  | .clearing =>
    { s with regs := Function.update s.regs configFlagAddress (clearBit (s.regs configFlagAddress) 3),
             pc := .test }

def step (s : State) : Label → State
  | .host w => { s with regs := w.apply s.regs, flagged := some (w.apply s.regs) }
  | .save => saveStep s

/-- Any table and any file, with the save thread at its test. -/
def start (regs : Table) (file : Option Bytes) : State := ⟨regs, file, printBuffer, .test, none⟩

/-- Loading the file gives these IDs. -/
def Stores (file : Option Bytes) (ids : Nat → U32) : Prop :=
  ∀ nullInt other, ∃ r, readDeviceIdFile nullInt file other = (frOk, some r) ∧
    ∀ i < nodeCount, idAt r.regs i = ids i

/-- With the flag down and no save under way, the last request is in the file. -/
def Saved (s : State) : Prop :=
  s.pc = .test → hasBit (s.regs configFlagAddress) 3 = false →
    ∀ t, s.flagged = some t → Stores s.file (idAt t)

/-- Rows of the file that the current save has already written. -/
def rowsWritten : Pc → Nat
  | .test => 0
  | .opening => 0
  | .row i => i
  | .clearing => nodeCount

/-- A request does not touch the IDs of rows already written. -/
def undisturbed (s : State) : Label → Prop
  | .host w => ∀ i < rowsWritten s.pc, idAt (w.apply s.regs) i = idAt s.regs i
  | .save => True

theorem stores_lines (ids : Nat → U32) : Stores (some (linesText ids (List.range nodeCount))) ids := by
  intro nullInt other
  obtain ⟨r, hread, hids, -, -⟩ := readDeviceIdFile_lines nullInt ids other
  exact ⟨r, hread, hids⟩

/-- A file holds one set of IDs only. -/
theorem stores_unique (file : Option Bytes) (ids ids' : Nat → U32) (h : Stores file ids) (h' : Stores file ids')
    (i : Nat) (hi : i < nodeCount) : ids i = ids' i := by
  obtain ⟨r, hread, hids⟩ := h 0#32 zeroTable
  obtain ⟨r', hread', hids'⟩ := h' 0#32 zeroTable
  rw [hread] at hread'
  obtain rfl : r = r' := by simpa using hread'
  rw [← hids i hi, hids' i hi]

theorem apply_flag (w : HostWrite) (regs : Table) : hasBit (w.apply regs configFlagAddress) 3 = true := by
  rw [HostWrite.apply, Function.update_self, hasBit_setBit _ _ (by decide)]

/-- What the file holds at each point of the save thread's loop. -/
def FileMatches (s : State) : Prop :=
  match s.pc with
  | .test => s.flagged ≠ none → hasBit (s.regs configFlagAddress) 3 = true ∨
      s.file = some (linesText (idAt s.regs) (List.range nodeCount))
  | .opening => True
  | .row i => i ≤ nodeCount ∧ s.str = printBuffer ∧ s.file = some (linesText (idAt s.regs) (List.range i))
  | .clearing => s.file = some (linesText (idAt s.regs) (List.range nodeCount))

/-- No other writer touches the ID area, so it still is what the last request left. -/
structure Inv (s : State) : Prop where
  file : FileMatches s
  latest : ∀ t, s.flagged = some t → ∀ i, idAt t i = idAt s.regs i

theorem inv_start (regs : Table) (file : Option Bytes) : Inv (start regs file) :=
  ⟨fun h => absurd rfl h, fun t h => by simp [start] at h⟩

theorem inv_host (s : State) (w : HostWrite) (h : Inv s) (hw : undisturbed s (.host w)) :
    Inv (step s (.host w)) := by
  refine ⟨?_, ?_⟩
  · have hfile := h.file
    simp only [FileMatches, step] at hfile ⊢
    cases hpc : s.pc with
    | test => exact fun _ => Or.inl (apply_flag w s.regs)
    | opening => trivial
    | row i =>
      simp only [hpc] at hfile ⊢
      simp only [undisturbed, hpc, rowsWritten] at hw
      rw [linesText_congr _ (idAt s.regs) i hw]
      exact hfile
    | clearing =>
      simp only [hpc] at hfile ⊢
      simp only [undisturbed, hpc, rowsWritten] at hw
      rw [linesText_congr _ (idAt s.regs) nodeCount hw]
      exact hfile
  · intro t ht i
    obtain rfl : w.apply s.regs = t := by simpa [step] using ht
    rfl

theorem inv_save (s : State) (h : Inv s) : Inv (step s .save) := by
  obtain ⟨hfile, hlatest⟩ := h
  simp only [step, saveStep]
  simp only [FileMatches] at hfile
  cases hpc : s.pc with
  | test =>
    simp only [hpc] at hfile ⊢
    by_cases hbit : hasBit (s.regs configFlagAddress) 3 = true
    · rw [if_pos hbit]
      exact ⟨trivial, hlatest⟩
    · rw [if_neg hbit]
      refine ⟨?_, hlatest⟩
      simp only [FileMatches, hpc]
      exact hfile
  | opening => exact ⟨⟨by decide, rfl, rfl⟩, hlatest⟩
  | row i =>
    simp only [hpc] at hfile ⊢
    obtain ⟨hi, hstr, htext⟩ := hfile
    by_cases hlast : i ≤ 255
    · rw [if_pos hlast, hstr, saveDeviceIdRow_eq s.regs i (by omega)]
      refine ⟨⟨by simp only [nodeCount]; omega, rfl, ?_⟩, hlatest⟩
      simp only [htext, Option.map_some, linesText_succ]
    · obtain rfl : i = nodeCount := by simp only [nodeCount] at hi ⊢; omega
      rw [if_neg hlast]
      exact ⟨htext, hlatest⟩
  | clearing =>
    simp only [hpc] at hfile ⊢
    refine ⟨fun _ => Or.inr ?_, ?_⟩
    · simp only [hfile]
      exact congrArg some (linesText_congr _ _ _ fun i _ => (idAt_update_flag _ _ i).symm)
    · intro t ht i
      rw [hlatest t ht i]
      exact (idAt_update_flag _ _ i).symm

theorem inv_step (s : State) (l : Label) (h : Inv s) (hok : undisturbed s l) : Inv (step s l) := by
  cases l with
  | host w => exact inv_host s w h hok
  | save => exact inv_save s h

theorem saved_of_inv (s : State) (h : Inv s) : Saved s := by
  intro hpc hbit t ht
  have hfile := h.file
  simp only [FileMatches, hpc, hbit, Bool.false_eq_true, false_or, ht] at hfile
  rw [hfile (by simp), linesText_congr _ (idAt t) nodeCount fun i _ => (h.latest t ht i).symm]
  exact stores_lines (idAt t)

theorem inv_run (regs : Table) (file : Option Bytes) (labels : List Label)
    (h : Allowed step undisturbed (start regs file) labels) : Inv (run step (start regs file) labels) :=
  invariant_of_allowed inv_step _ _ (inv_start regs file) h

/-- Left alone, the save thread writes the remaining rows from the registers, closes the file and
lowers the flag. -/
theorem finish_row (s : State) (i : Nat) (ids : Nat → U32) (hpc : s.pc = .row i) (hi : i ≤ nodeCount)
    (hstr : s.str = printBuffer) (hfile : s.file = some (linesText ids (List.range i)))
    (hids : ∀ j, i ≤ j → ids j = idAt s.regs j) :
    let t := run step s (List.replicate (nodeCount - i + 2) .save)
    t.pc = .test ∧ hasBit (t.regs configFlagAddress) 3 = false ∧ t.flagged = s.flagged ∧
      t.file = some (linesText ids (List.range nodeCount)) := by
  induction hk : nodeCount - i generalizing s i with
  | zero =>
    obtain rfl : i = nodeCount := by omega
    have hlast : ¬nodeCount ≤ 255 := by decide
    simp [List.replicate_succ, step, saveStep, hpc, hlast, hfile]
  | succ k ih =>
    have hrow : i ≤ 255 := by simp only [nodeCount] at hk; omega
    have hone : step s .save =
        { s with file := some (linesText ids (List.range (i + 1))), pc := .row (i + 1) } := by
      simp only [step, saveStep, hpc, if_pos hrow, hstr, saveDeviceIdRow_eq s.regs i (by omega), hfile,
        Option.map_some, linesText_succ, hids i (Nat.le_refl i)]
    have hrest := ih (step s .save) (i + 1) (by rw [hone]) (by omega) (by rw [hone]; exact hstr) (by rw [hone])
      (by rw [hone]; exact fun j hj => hids j (by omega)) (by omega)
    rw [Nat.add_right_comm, List.replicate_succ, run_cons]
    rw [hone] at hrest ⊢
    exact hrest

/-- A request between two rows leaves a file with old IDs above the cut and new ones below it,
and the flag it raised is lowered with the first request's. -/
theorem interrupted_save (s : State) (w : HostWrite) (c : Nat) (h : Inv s) (hpc : s.pc = .row c) :
    let t := run step (step s (.host w)) (List.replicate (nodeCount - c + 2) .save)
    t.pc = .test ∧ hasBit (t.regs configFlagAddress) 3 = false ∧ t.flagged = some (w.apply s.regs) ∧
      Stores t.file fun j => if j < c then idAt s.regs j else idAt (w.apply s.regs) j := by
  intro t
  have hfile := h.file
  simp only [FileMatches, hpc] at hfile
  obtain ⟨hc, hstr, htext⟩ := hfile
  let ids : Nat → U32 := fun j => if j < c then idAt s.regs j else idAt (w.apply s.regs) j
  have hmix : linesText (idAt s.regs) (List.range c) = linesText ids (List.range c) :=
    linesText_congr _ _ c fun j hj => (if_pos hj).symm
  obtain ⟨h₁, h₂, h₃, h₄⟩ := finish_row (step s (.host w)) c ids hpc hc hstr
    (by rw [← hmix]; exact htext) (fun j hj => if_neg (Nat.not_lt.mpr hj))
  refine ⟨h₁, h₂, h₃, ?_⟩
  rw [h₄]
  exact stores_lines ids

/-- A save that is completed without a further request shows what it had written before the last one. -/
theorem written_rows_of_saved (s : State) (w : HostWrite) (h : Inv s)
    (hs : ∀ k, Saved (run step (step s (.host w)) (List.replicate k .save))) : undisturbed s (.host w) := by
  intro i hi
  cases hpc : s.pc with
  | test => simp [rowsWritten, hpc] at hi
  | opening => simp [rowsWritten, hpc] at hi
  | row c =>
    simp only [rowsWritten, hpc] at hi
    have hfile := h.file
    simp only [FileMatches, hpc] at hfile
    obtain ⟨h₁, h₂, h₃, h₄⟩ := interrupted_save s w c h hpc
    have hsame := stores_unique _ _ _ (hs _ h₁ h₂ _ h₃) h₄ i (by omega)
    rw [hsame, if_pos hi]
  | clearing =>
    simp only [rowsWritten, hpc] at hi
    have hfile := h.file
    simp only [FileMatches, hpc] at hfile
    have hstores := hs 1 (by simp [step, saveStep, hpc]) (by simp [step, saveStep, hpc]) (w.apply s.regs)
      (by simp [step, saveStep, hpc])
    have hsame : (run step (step s (.host w)) (List.replicate 1 .save)).file = s.file := by
      simp [step, saveStep, hpc]
    rw [hsame, hfile] at hstores
    exact stores_unique _ _ _ hstores (stores_lines _) i hi

/-- Exactly when no request changes an ID whose row the running save has passed, every flagged
update is in the file in every state reached and in every state the save thread then comes to. -/
theorem flagged_ids_saved_iff (regs : Table) (file : Option Bytes) (labels : List Label) :
    (∀ reached, reached <+: labels → ∀ k,
      Saved (run step (start regs file) (reached ++ List.replicate k .save))) ↔
    Allowed step undisturbed (start regs file) labels := by
  have hsaved (s : State) (hs : Inv s) (k : Nat) : Saved (run step s (List.replicate k .save)) :=
    saved_of_inv _ (invariant_of_allowed inv_step _ _ hs
      (allowed_of_forall _ _ fun l hl s => by rw [List.eq_of_mem_replicate hl]; trivial))
  have hback (s : State) (l : Label) (hs : Inv s)
      (hk : ∀ k, Saved (run step (step s l) (List.replicate k .save))) : undisturbed s l := by
    cases l with
    | save => trivial
    | host w => exact written_rows_of_saved s w hs hk
  rw [← prefixes_iff_allowed inv_step hsaved hback (start regs file) labels (inv_start regs file)]
  simp only [run_append]

/-- Slot 0 is given an ID. -/
def setFirst (id : U16) : HostWrite := ⟨[(0x708, id)], by simp⟩

/-- The second request comes after row 0 of the first one's save. Its flag is lowered with the
first ID still in the file. -/
theorem flagged_update_lost :
    ¬Saved (run step (start zeroTable none)
      ([.host (setFirst 1#16), .save, .save, .save, .host (setFirst 2#16)] ++ List.replicate 257 .save)) := by
  generalize hs : run step (start zeroTable none) [.host (setFirst 1#16), .save, .save, .save] = s
  have hok : Allowed step undisturbed (start zeroTable none) [.host (setFirst 1#16), .save, .save, .save] :=
    ⟨by simp [undisturbed, start, rowsWritten], trivial, trivial, trivial, trivial⟩
  have hinv := inv_run _ _ _ hok
  rw [hs] at hinv
  have hpc : s.pc = .row 1 := by simp [← hs, step, saveStep, start, apply_flag]
  have hregs : s.regs = (setFirst 1#16).apply zeroTable := by simp [← hs, step, saveStep, start, apply_flag]
  have hsplit (k : Nat) : run step (start zeroTable none)
      ([.host (setFirst 1#16), .save, .save, .save, .host (setFirst 2#16)] ++ List.replicate k .save) =
        run step (step s (.host (setFirst 2#16))) (List.replicate k .save) := by
    rw [← hs]
    rfl
  obtain ⟨h₁, h₂, h₃, h₄⟩ := interrupted_save s (setFirst 2#16) 1 hinv hpc
  have hcount : 257 = nodeCount - 1 + 2 := by decide
  intro hsaved
  rw [hsplit, hcount] at hsaved
  have hid := stores_unique _ _ _ (hsaved h₁ h₂ _ h₃) h₄ 0 (by decide)
  rw [if_pos Nat.zero_lt_one, hregs] at hid
  revert hid
  decide

end DataReceiveRelay.IdSave
