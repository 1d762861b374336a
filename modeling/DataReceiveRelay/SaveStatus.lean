import DataReceiveRelay.Config
import DataReceiveRelay.DeviceIdFile
import DataReceiveRelay.FatFs

/-!
# What the codes of the two savers say

`SaveDeviceIdFile` makes 1280 puts and drops the result of each; what it returns
is the code of `f_close`. `Create_JsonFile` makes nine writes into one `res` and
never looks at the byte count; what it returns is the code of the last write,
and the result of its `f_close` is dropped. Both are modelled call by call, with
the outcome of every call as an input.
-/

namespace DataReceiveRelay.SaveStatus

open Words Registers Decimal DeviceIdFile Json Config FatFs

section DeviceIds

/-- One round of the loop of `SaveDeviceIdFile`: the print buffer and the file. -/
def saveDeviceIdRowTo (outcomes : Nat → WriteOutcome) (regs : Table) (state : Bytes × File) (i : Nat) :
    Bytes × File :=
  let (str, fp) := state
  let str := intToStr str (BitVec.ofNat 32 i)
  let (_, fp) := fPuts (outcomes (5 * i)) (cString str) fp
  let str := clearString str
  let (_, fp) := fPutc (outcomes (5 * i + 1)) comma fp
  let str := intToStr str (idAt regs i)
  let (_, fp) := fPuts (outcomes (5 * i + 2)) (cString str) fp
  let str := clearString str
  let (_, fp) := fPutc (outcomes (5 * i + 3)) comma fp
  let (_, fp) := fPutc (outcomes (5 * i + 4)) lineFeed fp
  (str, fp)

/-- `SaveDeviceIdFile`: the code it returns and what the volume holds afterwards. -/
def saveDeviceIdFileTo (opened : FResult) (outcomes : Nat → WriteOutcome) (closed : CloseOutcome) (stale : Bytes)
    (regs : Table) : U8 × Bytes :=
  let fp := fOpen opened stale
  let (_, fp) := (List.range nodeCount).foldl (saveDeviceIdRowTo outcomes regs) (printBuffer, fp)
  let (ret, contents) := fClose closed fp
  (ret.code, contents)

/-- The texts of one row, one per put. -/
def rowPieces (i : Nat) (id : U32) : List Bytes := [text 10 i, [comma], text 10 id.toNat, [comma], [lineFeed]]

/-- The texts of all puts, in order. -/
def devicePieces (regs : Table) (count : Nat) : List Bytes :=
  (List.range count).flatMap fun i => rowPieces i (idAt regs i)

theorem devicePieces_succ (regs : Table) (count : Nat) :
    devicePieces regs (count + 1) = devicePieces regs count ++ rowPieces count (idAt regs count) := by
  simp [devicePieces, List.range_succ]

theorem devicePieces_length (regs : Table) (count : Nat) : (devicePieces regs count).length = 5 * count := by
  induction count with
  | zero => rfl
  | succ count ih =>
    rw [devicePieces_succ, List.length_append, ih]
    rfl

theorem devicePieces_flatten (regs : Table) (count : Nat) :
    (devicePieces regs count).flatten = linesText (idAt regs) (List.range count) := by
  induction count with
  | zero => rfl
  | succ count ih =>
    rw [devicePieces_succ, List.flatten_append, ih, linesText_succ]
    simp [rowPieces, rowText]

/-- A row on an open file: the print buffer is clean again and each put adds what it could. -/
theorem saveDeviceIdRowTo_valid (outcomes : Nat → WriteOutcome) (regs : Table) (contents : Bytes) (i : Nat)
    (hi : i < 2 ^ 32) :
    saveDeviceIdRowTo outcomes regs (printBuffer, ⟨true, contents⟩) i =
      (printBuffer, ⟨true, contents ++ kept outcomes (5 * i) (rowPieces i (idAt regs i))⟩) := by
  have hnat : (BitVec.ofNat 32 i).toNat = i := by
    simp only [BitVec.toNat_ofNat]
    omega
  have hnumber := intToStr_zeroed 1024 (BitVec.ofNat 32 i) (by omega)
  have hid := intToStr_zeroed 1024 (idAt regs i) (by omega)
  have hclear := clearString_text (BitVec.ofNat 32 i) 1024 (by omega)
  have hprint := cString_text (BitVec.ofNat 32 i)
  rw [hnat] at hnumber hclear hprint
  simp only [saveDeviceIdRowTo, printBuffer, hnumber, hclear, hprint, hid, cString_text,
    clearString_text _ 1024 (by omega), fPuts_file, fPutc_file, fWrite_valid, rowPieces, kept, List.append_nil,
    List.append_assoc]

/-- All rows on an open file. -/
theorem saveDeviceIdRowsTo_valid (outcomes : Nat → WriteOutcome) (regs : Table) (count : Nat) (hc : count ≤ 2 ^ 32) :
    (List.range count).foldl (saveDeviceIdRowTo outcomes regs) (printBuffer, ⟨true, []⟩) =
      (printBuffer, ⟨true, kept outcomes 0 (devicePieces regs count)⟩) := by
  induction count with
  | zero => rfl
  | succ count ih =>
    rw [List.range_succ, List.foldl_append, ih (by omega), List.foldl_cons, List.foldl_nil,
      saveDeviceIdRowTo_valid outcomes regs _ count (by omega), devicePieces_succ, kept_append, devicePieces_length,
      Nat.zero_add]

/-- After a failed open nothing is written. -/
theorem saveDeviceIdRowsTo_invalid (outcomes : Nat → WriteOutcome) (regs : Table) (slots : List Nat) (str stale : Bytes) :
    (slots.foldl (saveDeviceIdRowTo outcomes regs) (str, ⟨false, stale⟩)).2 = ⟨false, stale⟩ := by
  induction slots generalizing str with
  | nil => rfl
  | cons i slots ih =>
    have hrow : saveDeviceIdRowTo outcomes regs (str, ⟨false, stale⟩) i =
        ((saveDeviceIdRowTo outcomes regs (str, ⟨false, stale⟩) i).1, ⟨false, stale⟩) := rfl
    rw [List.foldl_cons, hrow]
    exact ih _

theorem saveDeviceIdFileTo_eq (opened : FResult) (outcomes : Nat → WriteOutcome) (closed : CloseOutcome) (stale : Bytes)
    (regs : Table) :
    saveDeviceIdFileTo opened outcomes closed stale regs =
      if opened = .ok then (closed.status.code, closed.leaves (kept outcomes 0 (devicePieces regs nodeCount)))
      else (FResult.invalidObject.code, stale) := by
  by_cases hopen : opened = .ok
  · simp only [saveDeviceIdFileTo, fOpen, if_pos hopen, saveDeviceIdRowsTo_valid outcomes regs nodeCount (by decide),
      fClose, if_true]
  · simp only [saveDeviceIdFileTo, fOpen, if_neg hopen, saveDeviceIdRowsTo_invalid]
    rfl

end DeviceIds

section Configuration

/-- The entries from index `i` on; every code is overwritten by the next. -/
def writeEntriesTo (outcomes : Nat → WriteOutcome) (nullString : NullString) (config : ConfigTable) :
    Nat → Nat → File → Option File
  | 0, _, fp => some fp
  | k + 1, i, fp => do
    let string ← printEntry nullString (config i)
    let (_, _, fp) := fWrite (outcomes (2 * i + 1)) string fp
    let (_, _, fp) := fWrite (outcomes (2 * i + 2))
      (if i < getConfigFileLength - 1 then [comma, lineFeed] else [lineFeed]) fp
    writeEntriesTo outcomes nullString config k (i + 1) fp

/-- `Create_JsonFile`: the code it returns and what the volume holds, if every print returns. -/
def createJsonFileTo (opened : FResult) (outcomes : Nat → WriteOutcome) (closed : CloseOutcome) (stale : Bytes)
    (nullString : NullString) (config : ConfigTable) : Option (U8 × Bytes) := do
  let fp := fOpen opened stale
  let (_, _, fp) := fWrite (outcomes 0) header fp
  let fp ← writeEntriesTo outcomes nullString config getConfigFileLength 0 fp
  let (_, _, fp) := fWrite (outcomes 7) [closeBracket, lineFeed] fp
  let (res, _, fp) := fWrite (outcomes 8) [closeBrace, lineFeed] fp
  let (_, contents) := fClose closed fp
  pure (res.code, contents)

/-- The texts written for the entries from index `i` on. -/
def entryPieces (nullString : NullString) (config : ConfigTable) : Nat → Nat → Option (List Bytes)
  | 0, _ => some []
  | k + 1, i => do
    let string ← printEntry nullString (config i)
    let rest ← entryPieces nullString config k (i + 1)
    pure (string :: (if i < getConfigFileLength - 1 then [comma, lineFeed] else [lineFeed]) :: rest)

/-- The texts of the nine writes. -/
def jsonPieces (nullString : NullString) (config : ConfigTable) : Option (List Bytes) :=
  (entryPieces nullString config getConfigFileLength 0).map fun entries =>
    header :: (entries ++ [[closeBracket, lineFeed], [closeBrace, lineFeed]])

theorem entryPieces_length (nullString : NullString) (config : ConfigTable) (k i : Nat) (pieces : List Bytes)
    (h : entryPieces nullString config k i = some pieces) : pieces.length = 2 * k := by
  induction k generalizing i pieces with
  | zero =>
    obtain rfl := Option.some.inj h
    rfl
  | succ k ih =>
    simp only [entryPieces, Option.bind_eq_bind, Option.bind_eq_some_iff, Option.pure_def, Option.some.injEq] at h
    obtain ⟨string, -, rest, hrest, rfl⟩ := h
    simp only [List.length_cons, ih (i + 1) rest hrest]
    omega

theorem entryPieces_flatten (nullString : NullString) (config : ConfigTable) (k i : Nat) :
    (entryPieces nullString config k i).map List.flatten = writeEntries nullString config k i := by
  induction k generalizing i with
  | zero => rfl
  | succ k ih =>
    rw [entryPieces, writeEntries, ← ih (i + 1)]
    cases printEntry nullString (config i) with
    | none => rfl
    | some string =>
      cases entryPieces nullString config k (i + 1) with
      | none => rfl
      | some rest => simp

theorem jsonPieces_flatten (nullString : NullString) (config : ConfigTable) :
    (jsonPieces nullString config).map List.flatten = createJsonFile nullString config := by
  rw [jsonPieces, createJsonFile, ← entryPieces_flatten]
  cases entryPieces nullString config getConfigFileLength 0 with
  | none => rfl
  | some entries => simp

theorem writeEntriesTo_valid (outcomes : Nat → WriteOutcome) (nullString : NullString) (config : ConfigTable)
    (k i : Nat) (contents : Bytes) :
    writeEntriesTo outcomes nullString config k i ⟨true, contents⟩ =
      (entryPieces nullString config k i).map fun pieces => ⟨true, contents ++ kept outcomes (2 * i + 1) pieces⟩ := by
  induction k generalizing i contents with
  | zero => simp [writeEntriesTo, entryPieces, kept]
  | succ k ih =>
    rw [writeEntriesTo, entryPieces]
    cases printEntry nullString (config i) with
    | none => rfl
    | some string =>
      simp only [Option.bind_eq_bind, Option.bind_some, fWrite_valid, ih]
      cases entryPieces nullString config k (i + 1) with
      | none => rfl
      | some rest => simp [kept, Nat.mul_add]

theorem writeEntriesTo_invalid (outcomes : Nat → WriteOutcome) (nullString : NullString) (config : ConfigTable)
    (k i : Nat) (stale : Bytes) :
    writeEntriesTo outcomes nullString config k i ⟨false, stale⟩ =
      (entryPieces nullString config k i).map fun _ => ⟨false, stale⟩ := by
  induction k generalizing i with
  | zero => rfl
  | succ k ih =>
    rw [writeEntriesTo, entryPieces]
    cases printEntry nullString (config i) with
    | none => rfl
    | some string =>
      simp only [Option.bind_eq_bind, Option.bind_some, fWrite_invalid, ih]
      cases entryPieces nullString config k (i + 1) with
      | none => rfl
      | some rest => rfl

theorem createJsonFileTo_eq (opened : FResult) (outcomes : Nat → WriteOutcome) (closed : CloseOutcome) (stale : Bytes)
    (nullString : NullString) (config : ConfigTable) :
    createJsonFileTo opened outcomes closed stale nullString config =
      (jsonPieces nullString config).map fun pieces =>
        if opened = .ok then ((outcomes 8).status.code, closed.leaves (kept outcomes 0 pieces))
        else (FResult.invalidObject.code, stale) := by
  rw [createJsonFileTo, jsonPieces]
  by_cases hopen : opened = .ok
  · simp only [fOpen, if_pos hopen, fWrite_valid, writeEntriesTo_valid]
    cases hentries : entryPieces nullString config getConfigFileLength 0 with
    | none => rfl
    | some entries =>
      have hlen := entryPieces_length nullString config getConfigFileLength 0 entries hentries
      simp only [getConfigFileLength] at hlen
      simp [kept, kept_append, hlen, fClose]
  · simp only [fOpen, if_neg hopen, fWrite_invalid, writeEntriesTo_invalid]
    cases entryPieces nullString config getConfigFileLength 0 with
    | none => rfl
    | some entries => rfl

end Configuration

section Honest

/-- The device-ID saver returns the code of the close, so a zero says nothing about the 1280 puts. -/
theorem saveDeviceIdFileTo_complete_iff (opened : FResult) (outcomes : Nat → WriteOutcome) (closed : CloseOutcome)
    (stale : Bytes) (regs : Table) :
    ((saveDeviceIdFileTo opened outcomes closed stale regs).1 = 0#8 →
        (saveDeviceIdFileTo opened outcomes closed stale regs).2 = saveDeviceIdFile regs) ↔
      opened ≠ .ok ∨ closed.status ≠ .ok ∨ Whole outcomes 0 (devicePieces regs nodeCount) := by
  have hcomplete := leaves_eq_flatten_iff outcomes closed 0 (devicePieces regs nodeCount)
  rw [devicePieces_flatten, ← saveDeviceIdFile_eq] at hcomplete
  rw [saveDeviceIdFileTo_eq]
  by_cases hopen : opened = .ok
  · rw [if_pos hopen, hcomplete, code_eq_zero_iff]
    by_cases hclosed : closed.status = .ok
    · simp only [hopen, hclosed, ne_eq, not_true_eq_false, false_or, true_or, and_true, true_implies]
    · exact iff_of_true (fun h => absurd h hclosed) (.inr (.inl hclosed))
  · have hcode : FResult.invalidObject.code ≠ 0#8 := by decide
    rw [if_neg hopen]
    exact iff_of_true (fun h => absurd h hcode) (.inl hopen)

/-- The configuration saver returns the code of its last write, so a zero says nothing about the other eight, and
nothing about the close. -/
theorem createJsonFileTo_complete_iff (opened : FResult) (outcomes : Nat → WriteOutcome) (closed : CloseOutcome)
    (stale : Bytes) (nullString : NullString) (config : ConfigTable) :
    (∀ contents, createJsonFileTo opened outcomes closed stale nullString config = some (0#8, contents) →
        createJsonFile nullString config = some contents) ↔
      opened ≠ .ok ∨ (outcomes 8).status ≠ .ok ∨ ∀ pieces, jsonPieces nullString config = some pieces →
        Whole outcomes 0 pieces ∧ (closed.status = .ok ∨ pieces.flatten.length ≤ closed.flushed) := by
  rw [createJsonFileTo_eq, ← jsonPieces_flatten]
  cases jsonPieces nullString config with
  | none => simp
  | some pieces =>
    have hcomplete := leaves_eq_flatten_iff outcomes closed 0 pieces
    by_cases hopen : opened = .ok
    · simp only [if_pos hopen, Option.map_some, Option.some.injEq, Prod.mk.injEq, code_eq_zero_iff, forall_eq',
        ← hcomplete]
      constructor
      · intro h
        by_cases hlast : (outcomes 8).status = .ok
        · exact .inr (.inr (h _ ⟨hlast, rfl⟩).symm)
        · exact .inr (.inl hlast)
      · rintro (h | h | h) contents ⟨hlast, rfl⟩
        · exact absurd hopen h
        · exact absurd hlast h
        · exact h.symm
    · simp [hopen]

/-- Over every sequence of outcomes: a zero from either saver means a complete file exactly when the open failed, the
one code that is returned is an error, or no write fell short and, for the configuration, the close that is not looked at
lost nothing. -/
theorem saved_complete_iff (opened : FResult) (outcomes : Nat → WriteOutcome) (closed : CloseOutcome) (stale : Bytes)
    (regs : Table) (nullString : NullString) (config : ConfigTable) :
    (((saveDeviceIdFileTo opened outcomes closed stale regs).1 = 0#8 →
        (saveDeviceIdFileTo opened outcomes closed stale regs).2 = saveDeviceIdFile regs) ↔
      opened ≠ .ok ∨ closed.status ≠ .ok ∨ Whole outcomes 0 (devicePieces regs nodeCount)) ∧
    ((∀ contents, createJsonFileTo opened outcomes closed stale nullString config = some (0#8, contents) →
        createJsonFile nullString config = some contents) ↔
      opened ≠ .ok ∨ (outcomes 8).status ≠ .ok ∨ ∀ pieces, jsonPieces nullString config = some pieces →
        Whole outcomes 0 pieces ∧ (closed.status = .ok ∨ pieces.flatten.length ≤ closed.flushed)) :=
  ⟨saveDeviceIdFileTo_complete_iff opened outcomes closed stale regs,
    createJsonFileTo_complete_iff opened outcomes closed stale nullString config⟩

/-- A full volume: every write reports `FR_OK` and takes nothing. -/
def fullVolume : Nat → WriteOutcome := fun _ => ⟨.ok, 0⟩

theorem kept_fullVolume (k : Nat) (pieces : List Bytes) : kept fullVolume k pieces = [] := by
  induction pieces generalizing k with
  | nil => rfl
  | cons piece pieces ih =>
    rw [kept, ih]
    rfl

/-- On a full volume both savers return zero and leave an empty file. -/
theorem saved_fullVolume :
    (saveDeviceIdFileTo .ok fullVolume ⟨.ok, 0⟩ [] zeroTable = (0#8, []) ∧ saveDeviceIdFile zeroTable ≠ []) ∧
    createJsonFileTo .ok fullVolume ⟨.ok, 0⟩ [] emptyNull defaultConfig = some (0#8, []) ∧
      createJsonFile emptyNull defaultConfig ≠ some [] := by
  obtain ⟨file, hfile⟩ := createJsonFile_defaultNames emptyNull defaultConfig fun _ _ => rfl
  refine ⟨⟨?_, ?_⟩, ?_, fun hnil => createJsonFile_ne_nil emptyNull defaultConfig [] hnil rfl⟩
  · rw [saveDeviceIdFileTo_eq, kept_fullVolume]
    rfl
  · have hlen := (linesText_length (idAt zeroTable) (List.range nodeCount)).1
    rw [saveDeviceIdFile_eq, ← List.length_pos_iff]
    simp only [List.length_range, nodeCount] at hlen ⊢
    omega
  · rw [← jsonPieces_flatten] at hfile
    obtain ⟨pieces, hpieces, -⟩ := Option.map_eq_some_iff.mp hfile
    rw [createJsonFileTo_eq, hpieces, Option.map_some, kept_fullVolume]
    rfl

end Honest

end DataReceiveRelay.SaveStatus
