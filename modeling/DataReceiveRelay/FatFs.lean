import DataReceiveRelay.Words

/-!
# File calls with their outcomes

The disk decides how a call of FatFs ends: an open may fail, a write may report
an error or, on a full volume, report `FR_OK` for fewer bytes than it was given.
A write only fills the sector buffer; what the buffer and the directory entry
hold reaches the volume at the latest in `f_close`, which may fail too. These
outcomes are inputs here, one per call. A failed `f_open` invalidates the file
object, and every later call on it returns `FR_INVALID_OBJECT`.
-/

namespace DataReceiveRelay.FatFs

open Words

/-- `FRESULT`. -/
inductive FResult where
  | ok | diskErr | intErr | notReady | noFile | noPath | invalidName | denied | exist | invalidObject
  | writeProtected | invalidDrive | notEnabled | noFilesystem | mkfsAborted | timeout | locked | notEnoughCore
  | tooManyOpenFiles | invalidParameter
  deriving DecidableEq, Repr

/-- The number of a result, as `(uint8_t)res` gives it. -/
def FResult.code : FResult → U8
  | .ok => 0#8
  | .diskErr => 1#8
  | .intErr => 2#8
  | .notReady => 3#8
  | .noFile => 4#8
  | .noPath => 5#8
  | .invalidName => 6#8
  | .denied => 7#8
  | .exist => 8#8
  | .invalidObject => 9#8
  | .writeProtected => 10#8
  | .invalidDrive => 11#8
  | .notEnabled => 12#8
  | .noFilesystem => 13#8
  | .mkfsAborted => 14#8
  | .timeout => 15#8
  | .locked => 16#8
  | .notEnoughCore => 17#8
  | .tooManyOpenFiles => 18#8
  | .invalidParameter => 19#8

@[simp] theorem code_eq_zero_iff (res : FResult) : res.code = 0#8 ↔ res = .ok := by
  cases res <;> decide

/-- A file object and what the file holds. -/
structure File where
  valid : Bool
  contents : Bytes

/-- How one `f_write` ends: its code and how many bytes reached the file. -/
structure WriteOutcome where
  status : FResult
  written : Nat

/-- How `f_close` ends: its code and, when the flush fails, how much of the file is on the volume. -/
structure CloseOutcome where
  status : FResult
  flushed : Nat

/-- `f_open` with `FA_CREATE_ALWAYS`; `stale` is what the file holds when it fails. -/
def fOpen (res : FResult) (stale : Bytes) : File := if res = .ok then ⟨true, []⟩ else ⟨false, stale⟩

/-- `f_write`: the code, `*bw` and the file. -/
def fWrite (outcome : WriteOutcome) (buff : Bytes) (fp : File) : FResult × Nat × File :=
  if fp.valid then
    let written := buff.take outcome.written
    (outcome.status, written.length, { fp with contents := fp.contents ++ written })
  else (.invalidObject, 0, fp)

/-- `f_puts` of a string that fits the put buffer, so that only the flush writes; `none` is EOF. -/
def fPuts (outcome : WriteOutcome) (str : Bytes) (fp : File) : Option Nat × File :=
  let (res, nw, fp) := fWrite outcome str fp
  (if res = .ok ∧ str.length = nw then some str.length else none, fp)

def fPutc (outcome : WriteOutcome) (c : U8) (fp : File) : Option Nat × File := fPuts outcome [c] fp

/-- What is on the volume of a file that the writes have filled. -/
def CloseOutcome.leaves (outcome : CloseOutcome) (contents : Bytes) : Bytes :=
  if outcome.status = .ok then contents else contents.take outcome.flushed

/-- `f_close`: the code and what the volume holds. -/
def fClose (outcome : CloseOutcome) (fp : File) : FResult × Bytes :=
  if fp.valid then (outcome.status, outcome.leaves fp.contents) else (.invalidObject, fp.contents)

@[simp] theorem fPuts_file (outcome : WriteOutcome) (str : Bytes) (fp : File) :
    (fPuts outcome str fp).2 = (fWrite outcome str fp).2.2 := rfl

@[simp] theorem fPutc_file (outcome : WriteOutcome) (c : U8) (fp : File) :
    (fPutc outcome c fp).2 = (fWrite outcome [c] fp).2.2 := rfl

@[simp] theorem fWrite_valid (outcome : WriteOutcome) (buff contents : Bytes) :
    fWrite outcome buff ⟨true, contents⟩ =
      (outcome.status, (buff.take outcome.written).length, ⟨true, contents ++ buff.take outcome.written⟩) := rfl

@[simp] theorem fWrite_invalid (outcome : WriteOutcome) (buff contents : Bytes) :
    fWrite outcome buff ⟨false, contents⟩ = (.invalidObject, 0, ⟨false, contents⟩) := rfl

section Pieces

/-- What reaches the file when the pieces are written in order from call `k` on. -/
def kept (outcomes : Nat → WriteOutcome) : Nat → List Bytes → Bytes
  | _, [] => []
  | k, piece :: pieces => piece.take (outcomes k).written ++ kept outcomes (k + 1) pieces

/-- Every piece is written in full. -/
def Whole (outcomes : Nat → WriteOutcome) : Nat → List Bytes → Prop
  | _, [] => True
  | k, piece :: pieces => piece.length ≤ (outcomes k).written ∧ Whole outcomes (k + 1) pieces

theorem kept_append (outcomes : Nat → WriteOutcome) (k : Nat) (first second : List Bytes) :
    kept outcomes k (first ++ second) = kept outcomes k first ++ kept outcomes (k + first.length) second := by
  induction first generalizing k with
  | nil => rfl
  | cons piece first ih =>
    rw [List.cons_append, kept, kept, ih, List.length_cons, List.append_assoc, Nat.add_right_comm, Nat.add_assoc]

theorem kept_length_le (outcomes : Nat → WriteOutcome) (k : Nat) (pieces : List Bytes) :
    (kept outcomes k pieces).length ≤ pieces.flatten.length := by
  induction pieces generalizing k with
  | nil => rfl
  | cons piece pieces ih =>
    rw [kept, List.flatten_cons, List.length_append, List.length_append]
    exact Nat.add_le_add (by simp) (ih (k + 1))

/-- Nothing is lost exactly when every piece is written in full: a short one cannot be made up for. -/
theorem kept_eq_flatten_iff (outcomes : Nat → WriteOutcome) (k : Nat) (pieces : List Bytes) :
    kept outcomes k pieces = pieces.flatten ↔ Whole outcomes k pieces := by
  induction pieces generalizing k with
  | nil => exact iff_of_true rfl trivial
  | cons piece pieces ih =>
    rw [kept, List.flatten_cons, Whole, ← ih (k + 1)]
    constructor
    · intro h
      have hlen := congrArg List.length h
      have hrest := kept_length_le outcomes (k + 1) pieces
      rw [List.length_append, List.length_append, List.length_take] at hlen
      have hfull : piece.length ≤ (outcomes k).written := by omega
      rw [List.take_of_length_le hfull] at h
      exact ⟨hfull, List.append_cancel_left h⟩
    · rintro ⟨hfull, hrest⟩
      rw [List.take_of_length_le hfull, hrest]

/-- A text is complete on the volume exactly when no write fell short and the close left nothing behind. -/
theorem leaves_eq_flatten_iff (outcomes : Nat → WriteOutcome) (closed : CloseOutcome) (k : Nat) (pieces : List Bytes) :
    closed.leaves (kept outcomes k pieces) = pieces.flatten ↔
      Whole outcomes k pieces ∧ (closed.status = .ok ∨ pieces.flatten.length ≤ closed.flushed) := by
  have hwhole := kept_eq_flatten_iff outcomes k pieces
  by_cases hclose : closed.status = .ok
  · rw [CloseOutcome.leaves, if_pos hclose, hwhole]
    exact (and_iff_left (.inl hclose)).symm
  · rw [CloseOutcome.leaves, if_neg hclose, or_iff_right hclose, ← hwhole]
    constructor
    · intro h
      -- a cut text has the full length only if nothing was cut
      have hlen := congrArg List.length h
      have hle := kept_length_le outcomes k pieces
      rw [List.length_take] at hlen
      rw [List.take_of_length_le (by omega)] at h
      exact ⟨h, by omega⟩
    · rintro ⟨hkept, hflushed⟩
      rw [hkept, List.take_of_length_le hflushed]

end Pieces

end DataReceiveRelay.FatFs
