import DataReceiveRelay.Config
import DataReceiveRelay.FatFs
import DataReceiveRelay.ParseAccess

/-!
# Loading a configuration of unknown origin

`Get_JsonFile` leaves through one label with whatever `res` holds there. After a
failed open or read that is the error; after a failed parse it is still the
`FR_OK` of the read. The table is written entry by entry while the document is
walked, at the position of each object in its array, whatever the array's length.

A string of the document that is stored behind its block destroys the heap, so
nothing after it is defined: `none` stands for such a load.
-/

namespace DataReceiveRelay.ConfigLoad

open Words Runs Json ParseAccess Config FatFs

/-- What the parser reads and stores; a null pointer is not followed. -/
def blockAccesses (block tail : Bytes) : List Access := if block = [] then [] else parseAccesses (block ++ tail)

/-- Every string that the parser meets is stored inside its block. -/
def StringsFit (block tail : Bytes) : Prop := ∀ x ∈ blockAccesses block tail, x.fits = true

instance (block tail : Bytes) : Decidable (StringsFit block tail) :=
  inferInstanceAs (Decidable (∀ x ∈ blockAccesses block tail, x.fits = true))

/-- `Get_JsonFile` with the outcomes of `f_open` and `f_read`: the code and the table. -/
def getJsonFileOf (opened read : FResult) (bytes tail : Bytes) (config : ConfigTable) : Option (U8 × ConfigTable) :=
  if opened ≠ .ok then some (opened.code, config)
  else if read ≠ .ok then some (read.code, config)
  else if StringsFit (fileBlock bytes) tail then
    match parseBlock (fileBlock bytes) tail with
    | none => some (read.code, config)
    | some readJson => some (FResult.ok.code, assign config (loadWrites readJson))
  else none

/-- A disk without faults and a document whose strings fit. -/
theorem getJsonFileOf_ok (bytes tail : Bytes) (config : ConfigTable) (h : StringsFit (fileBlock bytes) tail) :
    getJsonFileOf .ok .ok bytes tail config = some (getJsonFile (some bytes) tail config) := by
  simp only [getJsonFileOf, getJsonFile, if_pos h]
  cases parseBlock (fileBlock bytes) tail with
  | none => rfl
  | some readJson => rfl

/-- A volume without the file. -/
theorem getJsonFileOf_noFile (read : FResult) (bytes tail : Bytes) (config : ConfigTable) :
    getJsonFileOf .noFile read bytes tail config = some (getJsonFile none tail config) := rfl

section Failure

variable (opened read : FResult) (bytes tail : Bytes) (config : ConfigTable)

/-- The file was opened, read and parsed. -/
def Loaded : Prop := opened = .ok ∧ read = .ok ∧ (parseBlock (fileBlock bytes) tail).isSome

/-- The load is defined, its code is zero only after a load, and every failure gives an error and leaves the table
alone. -/
def AllOrNothing : Prop :=
  ∃ code table, getJsonFileOf opened read bytes tail config = some (code, table) ∧
    (code = 0#8 → Loaded opened read bytes tail) ∧
    (¬Loaded opened read bytes tail → code ≠ 0#8 ∧ table = config)

/-- No failure touches the table. -/
theorem getJsonFileOf_failed (h : ¬Loaded opened read bytes tail) (code : U8) (table : ConfigTable)
    (hload : getJsonFileOf opened read bytes tail config = some (code, table)) : table = config := by
  unfold getJsonFileOf at hload
  by_cases hopen : opened = .ok
  · by_cases hread : read = .ok
    · rw [if_neg (not_not_intro hopen), if_neg (not_not_intro hread)] at hload
      split at hload
      · cases hparse : parseBlock (fileBlock bytes) tail with
        | none =>
          rw [hparse] at hload
          cases hload
          rfl
        | some readJson => exact absurd ⟨hopen, hread, by rw [hparse]; rfl⟩ h
      · cases hload
    · rw [if_neg (not_not_intro hopen), if_pos hread] at hload
      cases hload
      rfl
  · rw [if_pos hopen] at hload
    cases hload
    rfl

/-- The code is the first error of open and read; the parse has none of its own. -/
theorem getJsonFileOf_code (code : U8) (table : ConfigTable)
    (hload : getJsonFileOf opened read bytes tail config = some (code, table)) :
    code = 0#8 ↔ opened = .ok ∧ read = .ok := by
  unfold getJsonFileOf at hload
  by_cases hopen : opened = .ok
  · by_cases hread : read = .ok
    · rw [if_neg (not_not_intro hopen), if_neg (not_not_intro hread), hread] at hload
      refine iff_of_true ?_ ⟨hopen, hread⟩
      split at hload
      · cases hparse : parseBlock (fileBlock bytes) tail with
        | none =>
          rw [hparse] at hload
          cases hload
          rfl
        | some readJson =>
          rw [hparse] at hload
          cases hload
          rfl
      · cases hload
    · rw [if_neg (not_not_intro hopen), if_pos hread] at hload
      cases hload
      simp [hread]
  · rw [if_pos hopen] at hload
    cases hload
    simp [hopen]

/-- A load is undefined only behind a string that does not fit. -/
theorem getJsonFileOf_isSome : (getJsonFileOf opened read bytes tail config).isSome ↔
    (opened = .ok → read = .ok → StringsFit (fileBlock bytes) tail) := by
  unfold getJsonFileOf
  by_cases hopen : opened = .ok
  · by_cases hread : read = .ok
    · rw [if_neg (not_not_intro hopen), if_neg (not_not_intro hread)]
      by_cases hfits : StringsFit (fileBlock bytes) tail
      · rw [if_pos hfits]
        refine iff_of_true ?_ fun _ _ => hfits
        cases parseBlock (fileBlock bytes) tail with
        | none => rfl
        | some readJson => rfl
      · rw [if_neg hfits]
        exact iff_of_false (by simp) fun h => hfits (h hopen hread)
    · rw [if_neg (not_not_intro hopen), if_pos hread]
      exact iff_of_true rfl fun _ h => absurd h hread
  · rw [if_pos hopen]
    exact iff_of_true rfl fun h => absurd h hopen

/-- A load is all or nothing exactly when it fails on the disk, or the content is a JSON document whose strings fit: a
file that is read but is no JSON document gives a zero. -/
theorem allOrNothing_iff : AllOrNothing opened read bytes tail config ↔
    opened ≠ .ok ∨ read ≠ .ok ∨
      (parseBlock (fileBlock bytes) tail).isSome ∧ StringsFit (fileBlock bytes) tail := by
  have hsome := getJsonFileOf_isSome opened read bytes tail config
  constructor
  · rintro ⟨code, table, hload, hzero, -⟩
    by_cases hdisk : opened = .ok ∧ read = .ok
    · have hcode := (getJsonFileOf_code opened read bytes tail config code table hload).mpr hdisk
      exact .inr (.inr ⟨(hzero hcode).2.2, hsome.mp (by rw [hload]; rfl) hdisk.1 hdisk.2⟩)
    · exact (not_and_or.mp hdisk).imp_right .inl
  · intro h
    have hdefined : opened = .ok → read = .ok → StringsFit (fileBlock bytes) tail := by
      intro hopen hread
      exact ((h.resolve_left (not_not_intro hopen)).resolve_left (not_not_intro hread)).2
    obtain ⟨⟨code, table⟩, hload⟩ := Option.isSome_iff_exists.mp (hsome.mpr hdefined)
    have hcode := getJsonFileOf_code opened read bytes tail config code table hload
    have hloaded (hdisk : opened = .ok ∧ read = .ok) : Loaded opened read bytes tail :=
      ⟨hdisk.1, hdisk.2, ((h.resolve_left (not_not_intro hdisk.1)).resolve_left (not_not_intro hdisk.2)).1⟩
    exact ⟨code, table, hload, fun hzero => hloaded (hcode.mp hzero), fun hfailed =>
      ⟨fun hzero => hfailed (hloaded (hcode.mp hzero)),
        getJsonFileOf_failed opened read bytes tail config hfailed code table hload⟩⟩

end Failure

/-- The file `x`, read without fault, is no JSON document; the code is zero all the same. -/
theorem malformed_zero : parseBlock (chars ['x']) [] = none ∧
    (getJsonFileOf .ok .ok (chars ['x']) [] defaultConfig).map Prod.fst = some 0#8 ∧
      ¬AllOrNothing .ok .ok (chars ['x']) [] defaultConfig := by
  have hparse : parseBlock (chars ['x']) [] = none := by decide
  have hblock : fileBlock (chars ['x']) = chars ['x'] := by decide
  refine ⟨hparse, by decide, ?_⟩
  rw [allOrNothing_iff, hblock, hparse]
  simp

section Bounds

/-- The assignments to `g_ConfigFile[j]` that a file causes, in program order, if the load is defined. -/
def loadAssignments (bytes tail : Bytes) : Option (List (Nat × ConfigFile)) :=
  if StringsFit (fileBlock bytes) tail then some (fileWrites (some bytes) tail) else none

theorem getJsonFileOf_assignments (bytes tail : Bytes) (config : ConfigTable) :
    (getJsonFileOf .ok .ok bytes tail config).map Prod.snd = (loadAssignments bytes tail).map (assign config) := by
  by_cases hfits : StringsFit (fileBlock bytes) tail
  · rw [getJsonFileOf_ok bytes tail config hfits, loadAssignments, if_pos hfits, Option.map_some, Option.map_some,
      getJsonFile_eq_assign]
  · have hundefined : getJsonFileOf .ok .ok bytes tail config = none := if_neg hfits
    rw [hundefined, loadAssignments, if_neg hfits]
    rfl

/-- A key cut short by an escape: the counting loop finds one character, the copying loop takes the closing quote for a
digit and copies what follows. -/
example : ¬StringsFit (chars ['\x7b', '"', '\\', 'u', '"', ':', '"', 'a', 'b', 'c', 'd', 'e', 'f', '"', '\x7d']) [] := by
  decide

end Bounds

end DataReceiveRelay.ConfigLoad
