import DataReceiveRelay.Config

/-!
# Names that can be printed

`print_string_ptr` copies a string without special characters as it is. Any
other string is measured first, and the measuring loop only moves on behind a
control character that has no short escape: at every other character it reads
the same byte again. The copying loop after it advances on all of them.
-/

namespace DataReceiveRelay.NamePrinting

open Words Json Config

/-- The loop that measures a string with something to escape ends, and the text fits the buffer it asks for. -/
def Sized (str : Bytes) : Prop :=
  str.any needsEscape = true → ∃ turns len, sizeLoop turns str (deref str) 0 = some len ∧
    (quote :: (str.flatMap escape ++ [quote])).length + 1 ≤ len + 3

/-- The entry is printed, and the text up to its terminator is read as an object with this name. -/
def KeepsName (nullString : NullString) (entry : ConfigFile) (name : CString) : Prop :=
  ∃ out, printEntry nullString entry = some out ∧ ∀ tail, ∃ item field, parse (out ++ 0#8 :: tail) = some item ∧
    item.type = .object ∧ getObjectItem item nameKey = some field ∧ field.type = .string ∧
      field.valuestring = some name.val

section Sizing

/-- The measuring loop does its work exactly on the strings that can be printed. -/
theorem sized_iff (str : Bytes) (hz : 0#8 ∉ str) : Sized str ↔ Prints str := by
  cases hany : str.any needsEscape with
  | false => exact iff_of_true (fun h => by rw [hany] at h; cases h) (prints_plain str hany)
  | true =>
    have htoken := deref_ne_zero str hz hany
    rw [prints_escaped str hany]
    constructor
    · intro h
      obtain ⟨turns, len, hend, -⟩ := h hany
      cases hall : str.all movesPast with
      | true => rfl
      | false =>
        rw [sizeLoop_never str turns _ 0 hz htoken hall] at hend
        cases hend
    · intro hall _
      have htext := (flatMap_escape_length str).2
      refine ⟨_, _, sizeLoop_len str _ 0 hz htoken hall, ?_⟩
      rw [List.length_cons, List.length_append, List.length_singleton]
      omega

/-- The same loop where `len` is an `int` that wraps: the `++len` of its condition then may end it as well. -/
def wrappedSizeLoop : Nat → Bytes → U8 → U32 → Option U32
  | 0, _, _, _ => none
  | turns + 1, ptr, token, len =>
    if token = 0#8 then some len
    else if len + 1#32 = 0#32 then some 0#32
    else if shortEscape (deref ptr) then wrappedSizeLoop turns ptr (deref ptr) (len + 2#32)
    else if deref ptr < 32#8 then wrappedSizeLoop turns ptr.tail (deref ptr) (len + 6#32)
    else wrappedSizeLoop turns ptr (deref ptr) (len + 1#32)

theorem wrapped_even (len k : U32) (heven : len.toNat % 2 = 0) (hk : k.toNat % 2 = 0) : (len + k).toNat % 2 = 0 := by
  rw [BitVec.toNat_add]
  omega

theorem wrapped_odd (len : U32) (heven : len.toNat % 2 = 0) : len + 1#32 ≠ 0#32 := by
  intro h
  have hzero := congrArg BitVec.toNat h
  rw [BitVec.toNat_add] at hzero
  simp at hzero
  omega

theorem wrappedSizeLoop_stuck (turns : Nat) (c : U8) (ptr : Bytes) (token : U8) (len : U32) (hc : c ≠ 0#8)
    (hshort : shortEscape c = true) (ht : token ≠ 0#8) (heven : len.toNat % 2 = 0) :
    wrappedSizeLoop turns (c :: ptr) token len = none := by
  induction turns generalizing token len with
  | zero => rfl
  | succ turns ih =>
    rw [wrappedSizeLoop, if_neg ht, if_neg (wrapped_odd len heven), deref_cons, if_pos hshort]
    exact ih c (len + 2#32) hc (wrapped_even len 2#32 heven (by decide))

/-- Wrapping does not help where the loop stops moving at a character with a short escape: `len` stays even. -/
theorem wrappedSizeLoop_never (before : Bytes) (turns : Nat) (c : U8) (ptr : Bytes) (token : U8) (len : U32)
    (hz : 0#8 ∉ before) (hmove : before.all movesPast = true) (hc : c ≠ 0#8) (hshort : shortEscape c = true)
    (ht : token ≠ 0#8) (heven : len.toNat % 2 = 0) :
    wrappedSizeLoop turns (before ++ c :: ptr) token len = none := by
  induction before generalizing turns token len with
  | nil => exact wrappedSizeLoop_stuck turns c ptr token len hc hshort ht heven
  | cons b before ih =>
    obtain ⟨hb, hrest⟩ := not_or.mp (mt List.mem_cons.mpr hz)
    rw [List.all_cons, Bool.and_eq_true] at hmove
    obtain ⟨hlow, hlong⟩ := (movesPast_iff b).mp hmove.1
    cases turns with
    | zero => rfl
    | succ turns =>
      rw [List.cons_append, wrappedSizeLoop, if_neg ht, if_neg (wrapped_odd len heven), deref_cons, if_neg hlong,
        if_pos hlow, List.tail_cons]
      exact ih turns b (len + 6#32) hrest hmove.2 (Ne.symm hb) (wrapped_even len 6#32 heven (by decide))

end Sizing

section Entry

/-- An entry that is printed reads back with its name. -/
theorem keepsName_of_printed (nullString : NullString) (name : CString) (parameter number : U32) (out : Bytes)
    (h : printEntry nullString ⟨some name, parameter, number⟩ = some out) :
    KeepsName nullString ⟨some name, parameter, number⟩ name := by
  refine ⟨out, h, fun tail => ?_⟩
  have hkey : strcasecmp nameKey nameKey = true := by decide
  have hfind : getObjectItem (entryItem nullString ⟨some name, parameter, number⟩) nameKey =
      some { type := .string, valuestring := some name.val, string := some nameKey } := by
    simp [getObjectItem, entryItem, memberItems, entryMembers, hkey]
  have hlen : (out ++ 0#8 :: tail).length + 1 = (out ++ tail).length + 2 := by
    simp only [List.length_append, List.length_cons]
    omega
  have hread := reads_entry nullString _ out h (out ++ tail).length
  have hparse : parse (out ++ 0#8 :: tail) = some (entryItem nullString ⟨some name, parameter, number⟩) := by
    rw [parse, hlen, skip_solid _ (hread.solid_append _), hread.reads _ (by rw [deref_cons]; decide)]
    rfl
  exact ⟨_, _, hparse, rfl, hfind, rfl, rfl⟩

/-- Serialising an entry ends and keeps its name exactly when nothing in the name asks for an escape, or all of it
are control characters without a short one. -/
theorem serialised_iff_prints (nullString : NullString) (name : CString) (parameter number : U32) :
    Sized name.val ∧ KeepsName nullString ⟨some name, parameter, number⟩ name ↔ Prints name.val := by
  constructor
  · rintro ⟨hsized, -⟩
    exact (sized_iff name.val name.property).mp hsized
  · intro h
    obtain ⟨out, hout⟩ := Option.isSome_iff_exists.mp
      ((printEntry_isSome nullString ⟨some name, parameter, number⟩).mpr h)
    exact ⟨(sized_iff name.val name.property).mpr h, keepsName_of_printed nullString name parameter number out hout⟩

/-- A name that is one quotation mark. -/
def quoteName : CString := ⟨[quote], by decide⟩

/-- Its serialisation never ends, whether `len` wraps or not. -/
theorem quoteName_not_serialised : (∀ turns, sizeLoop turns quoteName.val quote 0 = none) ∧
    (∀ turns, wrappedSizeLoop turns quoteName.val quote 0#32 = none) ∧
    ¬(Sized quoteName.val ∧ KeepsName emptyNull ⟨some quoteName, 9600#32, 1#32⟩ quoteName) := by
  have hquote : quote ≠ 0#8 := by decide
  refine ⟨fun turns => ?_, fun turns => ?_, ?_⟩
  · exact sizeLoop_never [quote] turns quote 0 (by decide) hquote (by decide)
  · exact wrappedSizeLoop_never [] turns quote [] quote 0#32 (by decide) (by decide) hquote (by decide) hquote (by decide)
  · rintro ⟨hsized, -⟩
    rcases (sized_iff quoteName.val quoteName.property).mp hsized with h | h
    · exact absurd (h quote List.mem_cons_self) (by decide)
    · exact absurd (h quote List.mem_cons_self) (by decide)

end Entry

end DataReceiveRelay.NamePrinting
