import DataReceiveRelay.CutFile

/-!
# Reading a file of unknown origin

`/DeviceId.csv` lies on a volume that others can write, so `ReadDeviceIdFile`
may find any bytes at all. Its effect is put together line by line: the
arguments `StrToInt` gets and the registers that are written. The lines are
those that `f_gets` returns, which also breaks a line where the buffer ends;
the buffer is as long as the file, modulo 2 ^ 16.
-/

namespace DataReceiveRelay.AnyFile

open Words Runs Registers DeviceIdFile CutFile

section Spec

/-- The arguments of `StrToInt` on one line. -/
def lineArguments (line : Bytes) : List (Option Bytes) :=
  match strtok (cString line) with
  | none => [none]
  | some (record, rest) => [some record, (strtok rest).map Prod.fst]

/-- The register assignments of one line, in program order. -/
def lineStores (nullInt : U32) (line : Bytes) : List (Nat × U16) :=
  match fields line with
  | none => []
  | some (num, id) => storeId num (id.getD nullInt)

theorem readLine_eq (nullInt : U32) (line : Bytes) (r : Reading) :
    readLine nullInt line r =
      { regs := assign r.regs (lineStores nullInt line), tokens := r.tokens ++ lineArguments line } := by
  unfold readLine lineStores lineArguments fields
  cases strtok (cString line) with
  | none => rfl
  | some first =>
    simp only [Option.map_some]
    cases strtok first.2 with
    | none => rfl
    | some second => rfl

theorem foldl_readLine_eq (nullInt : U32) (lines : List Bytes) (r : Reading) :
    lines.foldl (fun r line => readLine nullInt line r) r =
      { regs := assign r.regs (lines.flatMap (lineStores nullInt)),
        tokens := r.tokens ++ lines.flatMap lineArguments } := by
  induction lines generalizing r with
  | nil => simp
  | cons line lines ih =>
    rw [List.foldl_cons, ih, readLine_eq]
    simp [assign_append]

/-- The lines of a file as the loop gets them. -/
def linesOf (bytes : Bytes) : List Bytes := fileLines (bytes.length % 2 ^ 16) (bytes.length + 1) bytes

/-- All register assignments of `ReadDeviceIdFile`. -/
def fileStores (nullInt : U32) (bytes : Bytes) : List (Nat × U16) := (linesOf bytes).flatMap (lineStores nullInt)

/-- Everything the function does with a file: the loop ends, and this is its effect. -/
theorem readDeviceIdFile_spec (nullInt : U32) (bytes : Bytes) (regs : Table) :
    readDeviceIdFile nullInt (some bytes) regs =
      (frOk, some ⟨assign regs (fileStores nullInt bytes), (linesOf bytes).flatMap lineArguments⟩) := by
  rw [readDeviceIdFile, readLoop_eq_foldl _ _ _ _ _ (Nat.lt_succ_self _), foldl_readLine_eq]
  rfl

end Spec

section Tokens

/-- A slot field and an ID field: two characters that are no commas, with a comma between them. -/
def TwoFields (line : Bytes) : Prop :=
  ∃ x y, x ≠ comma ∧ y ≠ comma ∧ [x, comma, y].Sublist (cString line)

theorem ne_comma_of_dropWhile (c : U8) (s rest : Bytes) (h : s.dropWhile (· == comma) = c :: rest) : c ≠ comma := by
  have hhead := List.head_dropWhile_not (fun c => c == comma) (l := s) (by simp [h])
  simpa [h] using hhead

/-- There is a token as soon as there is another character than a comma. -/
theorem strtok_isSome_iff (s : Bytes) : (strtok s).isSome ↔ ∃ y, y ≠ comma ∧ y ∈ s := by
  rw [strtok]
  cases hdrop : s.dropWhile (· == comma) with
  | nil =>
    rw [List.dropWhile_eq_nil_iff] at hdrop
    constructor
    · intro h
      cases h
    · rintro ⟨y, hne, hy⟩
      exact absurd (by simpa using hdrop y hy) hne
  | cons c rest =>
    have hmem : c ∈ s := (List.dropWhile_sublist _).subset (by rw [hdrop]; exact List.mem_cons_self)
    exact iff_of_true rfl ⟨c, ne_comma_of_dropWhile c s rest hdrop, hmem⟩

/-- Characters that are dropped in front are no part of a pattern that begins with another one. -/
theorem sublist_dropWhile_iff (p : U8 → Bool) (a : U8) (pattern s : Bytes) (ha : p a = false) :
    (a :: pattern).Sublist (s.dropWhile p) ↔ (a :: pattern).Sublist s := by
  induction s with
  | nil => rfl
  | cons c s ih =>
    cases hc : p c with
    | false => rw [List.dropWhile_cons_of_neg (by simp [hc])]
    | true =>
      have hne : a ≠ c := by
        rintro rfl
        rw [ha] at hc
        cases hc
      rw [List.dropWhile_cons_of_pos hc, ih, List.cons_sublist_cons']
      simp [hne]

/-- Behind the first comma stands what stands behind some comma. -/
theorem sublist_comma_iff (y : U8) (s : Bytes) :
    [comma, y].Sublist s ↔ y ∈ (s.dropWhile (· != comma)).tail := by
  rw [← sublist_dropWhile_iff (· != comma) comma [y] s (by decide)]
  cases hdrop : s.dropWhile (· != comma) with
  | nil => simp
  | cons c rest =>
    have hhead := List.head_dropWhile_not (fun c => c != comma) (l := s) (by simp [hdrop])
    obtain rfl : c = comma := by simpa [hdrop] using hhead
    simp

/-- Both calls of `strtok` find a token exactly on a line with two fields. -/
theorem twoFields_iff (line : Bytes) : TwoFields line ↔ none ∉ lineArguments line := by
  generalize hs : cString line = s
  rw [TwoFields, lineArguments, hs]
  cases hfirst : strtok s with
  | none =>
    refine iff_of_false ?_ (by simp)
    rintro ⟨x, y, hx, -, hsub⟩
    have hsome := (strtok_isSome_iff s).mpr ⟨x, hx, hsub.subset List.mem_cons_self⟩
    rw [hfirst] at hsome
    cases hsome
  | some first =>
    obtain ⟨c, tail, hdrop, hrest⟩ : ∃ c tail, s.dropWhile (· == comma) = c :: tail ∧
        first.2 = ((c :: tail).dropWhile (· != comma)).tail := by
      rw [strtok] at hfirst
      split at hfirst
      · cases hfirst
      · next c tail hdrop =>
        obtain rfl := Option.some.inj hfirst
        exact ⟨c, tail, hdrop, rfl⟩
    have hc : c ≠ comma := ne_comma_of_dropWhile c s tail hdrop
    have hpattern (y : U8) : (∃ x, x ≠ comma ∧ [x, comma, y].Sublist s) ↔ y ∈ first.2 := by
      rw [hrest, ← sublist_comma_iff]
      constructor
      · rintro ⟨x, hx, hsub⟩
        rw [← sublist_dropWhile_iff (· == comma) x _ s (by simpa using hx), hdrop] at hsub
        exact (List.sublist_cons_self x _).trans hsub
      · intro hsub
        refine ⟨c, hc, ?_⟩
        rw [← sublist_dropWhile_iff (· == comma) c _ s (by simpa using hc), hdrop]
        rw [List.cons_sublist_cons'] at hsub
        rcases hsub with hsub | ⟨heq, -⟩
        · exact hsub.cons_cons c
        · exact absurd heq.symm hc
    have hsecond : (none ∉ [some first.1, (strtok first.2).map Prod.fst]) ↔ (strtok first.2).isSome := by
      cases strtok first.2 <;> simp
    rw [hsecond, strtok_isSome_iff]
    constructor
    · rintro ⟨x, y, hx, hy, hsub⟩
      exact ⟨y, hy, (hpattern y).mp ⟨x, hx, hsub⟩⟩
    · rintro ⟨y, hy, hmem⟩
      obtain ⟨x, hx, hsub⟩ := (hpattern y).mpr hmem
      exact ⟨x, y, hx, hy, hsub⟩

/-- `StrToInt` gets a token at every call exactly when every line has two fields. -/
theorem strToInt_arguments_iff (nullInt : U32) (bytes : Bytes) (regs : Table) :
    (∃ r, readDeviceIdFile nullInt (some bytes) regs = (frOk, some r) ∧ none ∉ r.tokens) ↔
      ∀ line ∈ linesOf bytes, TwoFields line := by
  rw [readDeviceIdFile_spec]
  constructor
  · rintro ⟨r, hr, htokens⟩ line hline
    obtain rfl := Option.some.inj (Prod.mk.inj hr).2
    rw [twoFields_iff]
    intro hnone
    exact htokens (List.mem_flatMap.mpr ⟨line, hline, hnone⟩)
  · intro h
    refine ⟨_, rfl, ?_⟩
    intro hnone
    obtain ⟨line, hline, harg⟩ := List.mem_flatMap.mp hnone
    exact (twoFields_iff line).mp (h line hline) harg

/-- A file of one number: there is no second field, and the last byte is a line of its own. -/
theorem strToInt_missing : ∃ r, readDeviceIdFile 0#32 (some [55#8, lineFeed]) zeroTable = (frOk, some r) ∧
    r.tokens = [some [55#8], none, some [lineFeed], none] ∧ none ∈ r.tokens := by
  rw [readDeviceIdFile_spec]
  exact ⟨_, rfl, by decide, by decide⟩

end Tokens

section Confined

theorem lineStores_confined (nullInt : U32) (line : Bytes) (w : Nat × U16) (h : w ∈ lineStores nullInt line) :
    0x708 ≤ w.1 ∧ w.1 ≤ 0x907 := by
  rw [lineStores, fields] at h
  cases hfirst : strtok (cString line) with
  | none => simp [hfirst] at h
  | some first =>
    simp only [hfirst, Option.map_some, mem_storeId] at h
    have hnum := ((strToInt first.1).setWidth 8 : U8).isLt
    rcases h with rfl | rfl <;> simp only <;> omega

/-- Whatever the file holds, the line loop ends within one call of `f_gets` per byte and one more, and it writes
registers of the device-ID area only. -/
theorem readDeviceIdFile_confined (nullInt : U32) (bytes : Bytes) (regs : Table) :
    ∃ r, readLoop nullInt (bytes.length % 2 ^ 16) (bytes.length + 1) bytes ⟨regs, []⟩ = some r ∧
      readDeviceIdFile nullInt (some bytes) regs = (frOk, some r) ∧
      r.regs = assign regs (fileStores nullInt bytes) ∧
      (∀ w ∈ fileStores nullInt bytes, 0x708 ≤ w.1 ∧ w.1 ≤ 0x907) ∧
      ∀ a, a < 0x708 ∨ 0x907 < a → r.regs a = regs a := by
  have hspec := readDeviceIdFile_spec nullInt bytes regs
  refine ⟨_, (Prod.mk.inj hspec).2, hspec, rfl, ?_, ?_⟩
  · intro w hw
    obtain ⟨line, -, hline⟩ := List.mem_flatMap.mp hw
    exact lineStores_confined nullInt line w hline
  · intro a ha
    exact readDeviceIdFile_other nullInt (some bytes) regs _ (by rw [hspec]) a ha

end Confined

end DataReceiveRelay.AnyFile
