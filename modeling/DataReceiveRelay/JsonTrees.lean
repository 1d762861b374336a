import DataReceiveRelay.Json

/-!
# Printing and parsing whole trees

Trees of literals, integers that fit in an `int`, strings, arrays and objects,
nested to any depth. The print of such a tree returns exactly if every string and
key in it can be sized; then the parser reads the same tree back, whatever
delimiter follows it.
-/

namespace DataReceiveRelay.JsonTrees

open Words Decimal Json

section Trees

/-- The trees that a parse of literals, integers, strings, arrays and objects builds. -/
inductive Normal : Item → Prop
  | null : Normal { type := .null }
  | false : Normal { type := .false }
  | true : Normal { type := .true, valueint := 1#32 }
  | int (n : Int) (hlo : -2 ^ 31 ≤ n) (hhi : n ≤ 2 ^ 31 - 1) :
      Normal { type := .number, valuedouble := n, valueint := BitVec.ofInt 32 n }
  | string (s : Bytes) (hz : 0#8 ∉ s) : Normal { type := .string, valuestring := some s }
  | array (items : List Item) (h : ∀ i ∈ items, Normal i) : Normal { type := .array, child := items }
  | object (members : List (Bytes × Item)) (hz : ∀ m ∈ members, 0#8 ∉ m.1) (h : ∀ m ∈ members, Normal m.2) :
      Normal { type := .object, child := members.map fun m => { m.2 with string := some m.1 } }

mutual

/-- All strings and keys that a print of the tree has to size. -/
def strings : Item → List Bytes
  | ⟨.string, valuestring, _, _, _, _⟩ => [valuestring.getD []]
  | ⟨.array, _, _, _, _, child⟩ => stringsOf child
  | ⟨.object, _, _, _, _, child⟩ => (child.map fun c => c.string.getD []) ++ stringsOf child
  | _ => []

def stringsOf : List Item → List Bytes
  | [] => []
  | i :: items => strings i ++ stringsOf items

end

theorem mem_stringsOf (s : Bytes) (items : List Item) : s ∈ stringsOf items ↔ ∃ i ∈ items, s ∈ strings i := by
  induction items with
  | nil => simp [stringsOf]
  | cons i items ih => rw [stringsOf, List.mem_append, ih, List.exists_mem_cons_iff]

/-- The key of a member does not count among the strings of its value. -/
theorem strings_named (item : Item) (key : Option Bytes) : strings { item with string := key } = strings item := by
  obtain ⟨type, valuestring, valueint, valuedouble, string, child⟩ := item
  cases type <;> rfl

theorem strings_array (items : List Item) (s : Bytes) :
    s ∈ strings { type := .array, child := items } ↔ ∃ i ∈ items, s ∈ strings i := by
  rw [strings, mem_stringsOf]

theorem strings_object (members : List (Bytes × Item)) (s : Bytes) :
    s ∈ strings { type := .object, child := members.map fun m => { m.2 with string := some m.1 } } ↔
      ∃ m ∈ members, s = m.1 ∨ s ∈ strings m.2 := by
  rw [strings, List.mem_append, mem_stringsOf]
  simp only [List.map_map, List.mem_map, Function.comp_apply, Option.getD_some, exists_exists_and_eq_and,
    strings_named]
  constructor
  · rintro (⟨m, hm, rfl⟩ | ⟨m, hm, hs⟩)
    · exact ⟨m, hm, Or.inl rfl⟩
    · exact ⟨m, hm, Or.inr hs⟩
  · rintro ⟨m, hm, rfl | hs⟩
    · exact Or.inl ⟨m, hm, rfl⟩
    · exact Or.inr ⟨m, hm, hs⟩

end Trees

section Lists

variable {α β : Type}

/-- Results of all elements, one by one. -/
theorem mapM_eq_some_iff (f : α → Option β) (l : List α) (l' : List β) :
    l.mapM f = some l' ↔ List.Forall₂ (fun a b => f a = some b) l l' := by
  induction l generalizing l' with
  | nil =>
    rw [List.mapM_nil, List.forall₂_nil_left_iff]
    exact ⟨fun h => (Option.some.inj h).symm, fun h => by rw [h]; rfl⟩
  | cons a l ih =>
    rw [List.mapM_cons, List.forall₂_cons_left_iff]
    cases hf : f a with
    | none => simp
    | some b =>
      constructor
      · intro h
        cases hl : l.mapM f with
        | none => simp [hl] at h
        | some bs =>
          simp only [hl, Option.bind_eq_bind, Option.bind_some, Option.pure_def, Option.some.injEq] at h
          exact ⟨b, bs, rfl, (ih bs).mp hl, h.symm⟩
      · rintro ⟨b', bs, hb, hrest, rfl⟩
        rw [(ih bs).mpr hrest]
        simpa using hb

/-- All elements have a result or the whole has none. -/
theorem mapM_some_iff (f : α → Option β) (l : List α) : (∃ l', l.mapM f = some l') ↔ ∀ a ∈ l, ∃ b, f a = some b := by
  simp only [mapM_eq_some_iff]
  induction l with
  | nil => simp
  | cons a l ih => simp only [List.forall₂_cons_left_iff, List.forall_mem_cons, ← ih]; grind

theorem mapM_mono (f g : α → Option β) (hfg : ∀ a b, f a = some b → g a = some b) (l : List α) (l' : List β)
    (h : l.mapM f = some l') : l.mapM g = some l' := by
  rw [mapM_eq_some_iff] at h ⊢
  exact h.imp hfg

/-- A common bound for all elements of a list. -/
theorem exists_bound (P : Nat → α → Prop) (hmono : ∀ n a, P n a → P (n + 1) a) (l : List α)
    (h : ∀ a ∈ l, ∃ n, P n a) : ∃ n, ∀ a ∈ l, P n a := by
  have hle (a : α) (n k : Nat) (hn : P n a) : P (n + k) a := by
    induction k with
    | zero => exact hn
    | succ k ih => exact hmono _ a ih
  induction l with
  | nil => exact ⟨0, by simp⟩
  | cons a l ih =>
    obtain ⟨n, hn⟩ := h a List.mem_cons_self
    obtain ⟨m, hm⟩ := ih fun b hb => h b (List.mem_cons_of_mem a hb)
    refine ⟨n + m, List.forall_mem_cons.mpr ⟨hle a n m hn, fun b hb => ?_⟩⟩
    rw [Nat.add_comm]
    exact hle b m n (hm b hb)

end Lists

section Print

/-- The name and the value of one member. -/
def printMember (nesting depth : Nat) (c : Item) : Option (Bytes × Bytes) := do
  let name ← printStringPtr (c.string.getD [])
  let entry ← printValue nesting (depth + 1) c
  pure (name, entry)

theorem printMember_eq_some_iff (nesting depth : Nat) (c : Item) (name entry : Bytes) :
    printMember nesting depth c = some (name, entry) ↔
      printStringPtr (c.string.getD []) = some name ∧ printValue nesting (depth + 1) c = some entry := by
  simp only [printMember, Option.bind_eq_bind, Option.pure_def, Option.bind_eq_some_iff, Option.some.injEq,
    Prod.mk.injEq]
  constructor
  · rintro ⟨a, ha, b, hb, rfl, rfl⟩
    exact ⟨ha, hb⟩
  · rintro ⟨ha, hb⟩
    exact ⟨name, ha, entry, hb, rfl, rfl⟩

theorem printValue_named (nesting depth : Nat) (item : Item) (key : Option Bytes) :
    printValue nesting depth { item with string := key } = printValue nesting depth item := by
  obtain ⟨type, valuestring, valueint, valuedouble, string, child⟩ := item
  cases nesting with
  | zero => rfl
  | succ nesting => cases type <;> rfl

theorem printValue_array (nesting depth : Nat) (item : Item) (h : item.type = .array) :
    printValue (nesting + 1) depth item =
      (item.child.mapM (printValue nesting (depth + 1))).map fun entries =>
        openBracket :: (joinEntries entries ++ [closeBracket]) := by
  simp only [printValue, h]

theorem printValue_object (nesting depth : Nat) (item : Item) (h : item.type = .object) (hne : item.child ≠ []) :
    printValue (nesting + 1) depth item =
      (item.child.mapM (printMember nesting depth)).map fun members =>
        openBrace :: lineFeed :: (joinMembers (depth + 1) members ++ List.replicate depth tab ++ [closeBrace]) := by
  simp only [printValue, h, List.isEmpty_iff, hne, if_false]
  rfl

theorem printValue_empty (nesting depth : Nat) (item : Item) (h : item.type = .object) (he : item.child = []) :
    printValue (nesting + 1) depth item =
      some (openBrace :: lineFeed :: (List.replicate (depth - 1) tab ++ [closeBrace])) := by
  simp only [printValue, h, he, List.isEmpty_nil, if_true]

theorem printMember_mono (nesting depth : Nat)
    (ih : ∀ item text, printValue nesting (depth + 1) item = some text →
      printValue (nesting + 1) (depth + 1) item = some text) (c : Item) (pair : Bytes × Bytes)
    (h : printMember nesting depth c = some pair) : printMember (nesting + 1) depth c = some pair := by
  obtain ⟨name, entry⟩ := pair
  obtain ⟨hname, hentry⟩ := (printMember_eq_some_iff nesting depth c name entry).mp h
  exact (printMember_eq_some_iff _ depth c name entry).mpr ⟨hname, ih c entry hentry⟩

/-- A print that returned does not depend on the bound. -/
theorem printValue_mono (nesting depth : Nat) (item : Item) (text : Bytes)
    (h : printValue nesting depth item = some text) : printValue (nesting + 1) depth item = some text := by
  induction nesting generalizing depth item text with
  | zero => cases h
  | succ nesting ih =>
    cases hkind : item.type with
    | null | false | true | number | string =>
      simp only [printValue, hkind] at h ⊢
      exact h
    | array =>
      rw [printValue_array _ depth item hkind, Option.map_eq_some_iff] at h ⊢
      obtain ⟨entries, hentries, htext⟩ := h
      exact ⟨entries, mapM_mono _ _ (ih (depth + 1)) _ _ hentries, htext⟩
    | object =>
      by_cases he : item.child = []
      · rw [printValue_empty _ depth item hkind he] at h ⊢
        exact h
      · rw [printValue_object _ depth item hkind he, Option.map_eq_some_iff] at h ⊢
        obtain ⟨members, hmembers, htext⟩ := h
        exact ⟨members, mapM_mono _ _ (printMember_mono nesting depth (ih (depth + 1))) _ _ hmembers, htext⟩

theorem printNumber_int (n : Int) (hlo : -2 ^ 31 ≤ n) (hhi : n ≤ 2 ^ 31 - 1) :
    printNumber { type := .number, valuedouble := n, valueint := BitVec.ofInt 32 n } = some (intText n) := by
  have hint : (BitVec.ofInt 32 n).toInt = n := by
    rw [BitVec.toInt_ofInt]
    exact Int.bmod_eq_of_le (by omega) (by omega)
  have hlow : (-2 ^ 31 : ℚ) ≤ n := by exact_mod_cast hlo
  have hhigh : (n : ℚ) ≤ 2 ^ 31 - 1 := by exact_mod_cast hhi
  by_cases hz : n = 0
  · subst hz
    rfl
  · have hne : ¬(n : ℚ) = 0 := by exact_mod_cast hz
    simp only [printNumber, hne, if_false, hint, sub_self, abs_zero, hlow, hhigh, and_self, and_true]
    rw [if_pos (by positivity)]

/-- A member is printed exactly if its key and its value are. -/
theorem printMember_some_iff (nesting depth : Nat) (m : Bytes × Item) (hz : 0#8 ∉ m.1) :
    (∃ pair, printMember nesting depth { m.2 with string := some m.1 } = some pair) ↔
      Prints m.1 ∧ ∃ entry, printValue nesting (depth + 1) m.2 = some entry := by
  rw [← printStringPtr_isSome m.1 hz, Option.isSome_iff_exists]
  simp only [Prod.exists, printMember_eq_some_iff, Option.getD_some, printValue_named, exists_and_left,
    exists_and_right]

/-- The print of the value returns, with some bound on the nesting. -/
def Returns (depth : Nat) (item : Item) : Prop := ∃ nesting text, printValue nesting depth item = some text

theorem returns_array (depth : Nat) (items : List Item) :
    Returns depth { type := .array, child := items } ↔ ∀ i ∈ items, Returns (depth + 1) i := by
  constructor
  · rintro ⟨nesting, text, htext⟩ i hi
    cases nesting with
    | zero => cases htext
    | succ nesting =>
      rw [printValue_array nesting depth _ rfl, Option.map_eq_some_iff] at htext
      obtain ⟨entries, hentries, -⟩ := htext
      exact ⟨nesting, (mapM_some_iff _ items).mp ⟨entries, hentries⟩ i hi⟩
  · intro hall
    obtain ⟨nesting, hbound⟩ := exists_bound (fun n i => ∃ text, printValue n (depth + 1) i = some text)
      (fun n i ⟨text, ht⟩ => ⟨text, printValue_mono n _ i text ht⟩) items hall
    obtain ⟨entries, hentries⟩ := (mapM_some_iff _ items).mpr hbound
    exact ⟨nesting + 1, _, by rw [printValue_array nesting depth _ rfl, hentries]; rfl⟩

theorem returns_object (depth : Nat) (members : List (Bytes × Item)) (hz : ∀ m ∈ members, 0#8 ∉ m.1) :
    Returns depth { type := .object, child := members.map fun m => { m.2 with string := some m.1 } } ↔
      ∀ m ∈ members, Prints m.1 ∧ Returns (depth + 1) m.2 := by
  by_cases he : members = []
  · subst he
    exact iff_of_true ⟨1, _, rfl⟩ (by simp)
  have hne : (members.map fun m => { m.2 with string := some m.1 } : List Item) ≠ [] := by simpa using he
  constructor
  · rintro ⟨nesting, text, htext⟩ m hm
    cases nesting with
    | zero => cases htext
    | succ nesting =>
      rw [printValue_object nesting depth _ rfl hne, Option.map_eq_some_iff] at htext
      obtain ⟨pairs, hpairs, -⟩ := htext
      have hmember := (mapM_some_iff _ _).mp ⟨pairs, hpairs⟩ _ (List.mem_map_of_mem hm)
      obtain ⟨hkey, hentry⟩ := (printMember_some_iff nesting depth m (hz m hm)).mp hmember
      exact ⟨hkey, nesting, hentry⟩
  · intro hall
    obtain ⟨nesting, hbound⟩ := exists_bound
      (fun n (m : Bytes × Item) => ∃ text, printValue n (depth + 1) m.2 = some text)
      (fun n m ⟨text, ht⟩ => ⟨text, printValue_mono n _ m.2 text ht⟩) members fun m hm => (hall m hm).2
    have hmembers : ∀ c ∈ (members.map fun m => { m.2 with string := some m.1 } : List Item),
        ∃ pair, printMember nesting depth c = some pair := by
      rw [List.forall_mem_map]
      exact fun m hm => (printMember_some_iff nesting depth m (hz m hm)).mpr ⟨(hall m hm).1, hbound m hm⟩
    obtain ⟨pairs, hpairs⟩ := (mapM_some_iff _ _).mpr hmembers
    exact ⟨nesting + 1, _, by rw [printValue_object nesting depth _ rfl hne, hpairs]; rfl⟩

/-- The print of a tree returns exactly if all its strings and keys can be sized. -/
theorem returns_iff (item : Item) (h : Normal item) (depth : Nat) :
    Returns depth item ↔ ∀ s ∈ strings item, Prints s := by
  induction h generalizing depth with
  | null | false | true => exact iff_of_true ⟨1, _, rfl⟩ (by simp [strings])
  | int n hlo hhi => exact iff_of_true ⟨1, _, printNumber_int n hlo hhi⟩ (by simp [strings])
  | string s hz =>
    rw [show strings { type := .string, valuestring := some s } = [s] from rfl, List.forall_mem_singleton,
      ← printStringPtr_isSome s hz, Option.isSome_iff_exists]
    constructor
    · rintro ⟨nesting, text, htext⟩
      cases nesting with
      | zero => cases htext
      | succ nesting => exact ⟨text, htext⟩
    · rintro ⟨text, htext⟩
      exact ⟨1, text, htext⟩
  | array items h ih =>
    simp only [returns_array, strings_array]
    constructor
    · rintro hall s ⟨i, hi, hs⟩
      exact (ih i hi (depth + 1)).mp (hall i hi) s hs
    · intro hall i hi
      exact (ih i hi (depth + 1)).mpr fun s hs => hall s ⟨i, hi, hs⟩
  | object members hz h ih =>
    simp only [returns_object depth members hz, strings_object]
    constructor
    · rintro hall s ⟨m, hm, rfl | hs⟩
      · exact (hall m hm).1
      · exact (ih m hm (depth + 1)).mp (hall m hm).2 s hs
    · intro hall m hm
      exact ⟨hall m.1 ⟨m, hm, Or.inl rfl⟩, (ih m hm (depth + 1)).mpr fun s hs => hall s ⟨m, hm, Or.inr hs⟩⟩

end Print

section Arrays

/-- Printed entries are read back one by one. -/
theorem parseElements_entries (read : Bytes → Option (Item × Bytes)) (entries : List Bytes) (items : List Item)
    (h : List.Forall₂ (Reads read) entries items) (hne : entries ≠ []) (fuel : Nat) (hf : entries.length ≤ fuel)
    (rest : Bytes) :
    32#8 < deref (joinEntries entries ++ closeBracket :: rest) ∧
    parseElements read fuel (joinEntries entries ++ closeBracket :: rest) = some (items, closeBracket :: rest) := by
  induction h generalizing fuel with
  | nil => exact absurd rfl hne
  | @cons e i entries items he hrest ih =>
    obtain ⟨f, rfl⟩ : ∃ f, fuel = f + 1 := ⟨fuel - 1, by simp at hf; omega⟩
    cases hrest with
    | nil =>
      have hread := he.reads (closeBracket :: rest) (by rw [deref_cons]; decide)
      have hskip : skip (closeBracket :: rest) = closeBracket :: rest := skip_solid _ (by rw [deref_cons]; decide)
      have hlast := parseElements_last read f _ _ _ hread (by rw [hskip, deref_cons]; decide)
      rw [hskip] at hlast
      exact ⟨he.solid_append _, hlast⟩
    | @cons e' i' entries items he' hrest =>
      have hsplit : joinEntries (e :: e' :: entries) ++ closeBracket :: rest =
          e ++ comma :: 32#8 :: (joinEntries (e' :: entries) ++ closeBracket :: rest) := by
        simp [joinEntries, chars, comma]
      have hread := he.reads (comma :: 32#8 :: (joinEntries (e' :: entries) ++ closeBracket :: rest))
        (by rw [deref_cons]; decide)
      obtain ⟨hsolid, hmore⟩ := ih (by simp) f (by simpa using hf)
      rw [hsplit]
      refine ⟨he.solid_append _, parseElements_more read f _ _ _ _ _ _ hread
        (skip_solid _ (by rw [deref_cons]; decide)) ?_⟩
      rw [skip_space 32#8 _ (by decide) (by decide), skip_solid _ hsolid]
      exact hmore

theorem parseValue_closeBracket (nesting : Nat) (rest : Bytes) : parseValue nesting (closeBracket :: rest) = none := by
  cases nesting with
  | zero => rfl
  | succ nesting =>
    rw [parseValue_noKeyword nesting _ (by rw [NoKeyword, deref_cons]; decide), deref_cons]
    rfl

theorem ne_closeBracket {nesting : Nat} {e : Bytes} {item : Item} (h : Reads (parseValue nesting) e item)
    (rest : Bytes) : deref (e ++ rest) ≠ closeBracket := by
  obtain ⟨c, e, rfl⟩ : ∃ c e', e = c :: e' := by
    cases e with
    | nil => exact absurd h.solid (by decide)
    | cons c e => exact ⟨c, e, rfl⟩
  rw [List.cons_append, deref_cons]
  rintro rfl
  have hread := h.reads [] (by decide)
  rw [List.cons_append, parseValue_closeBracket] at hread
  cases hread

theorem length_le_joinEntries (entries : List Bytes) :
    entries.length ≤ (joinEntries entries).length + 1 ∧ ∀ e ∈ entries, e.length ≤ (joinEntries entries).length := by
  induction entries with
  | nil => simp
  | cons e entries ih =>
    cases entries with
    | nil => simp [joinEntries]
    | cons e' entries =>
      have hlen : (joinEntries (e :: e' :: entries)).length = e.length + 2 + (joinEntries (e' :: entries)).length := by
        simp [joinEntries, chars]
        omega
      rw [hlen, List.length_cons]
      refine ⟨by omega, List.forall_mem_cons.mpr ⟨by omega, fun b hb => ?_⟩⟩
      have hb' := ih.2 b hb
      omega

/-- An array as a value. -/
theorem reads_array (nesting : Nat) (entries : List Bytes) (items : List Item)
    (h : List.Forall₂ (Reads (parseValue nesting)) entries items) :
    Reads (parseValue (nesting + 1)) (openBracket :: (joinEntries entries ++ [closeBracket]))
      { type := .array, child := items } := by
  constructor
  · rw [deref_cons]
    decide
  · intro rest _
    have hkey : NoKeyword (openBracket :: (joinEntries entries ++ [closeBracket]) ++ rest) := by
      rw [NoKeyword, List.cons_append, deref_cons]
      decide
    rw [parseValue_noKeyword nesting _ hkey, List.cons_append, List.append_assoc, List.singleton_append, deref_cons,
      if_neg (by decide), if_neg (by decide), if_pos rfl, parseArray, List.tail_cons]
    cases h with
    | nil =>
      have hskip : skip (closeBracket :: rest) = closeBracket :: rest := skip_solid _ (by rw [deref_cons]; decide)
      simp [joinEntries, hskip]
    | @cons e i entries items he hrest =>
      have hlen := (length_le_joinEntries (e :: entries)).1
      obtain ⟨hsolid, hread⟩ := parseElements_entries (parseValue nesting) (e :: entries) (i :: items) (.cons he hrest)
        (by simp) ((joinEntries (e :: entries) ++ closeBracket :: rest).length + 1)
        (by rw [List.length_append]; omega) rest
      have hfirst : deref (joinEntries (e :: entries) ++ closeBracket :: rest) ≠ closeBracket := by
        cases entries with
        | nil => exact ne_closeBracket he _
        | cons e' entries =>
          rw [joinEntries, List.append_assoc, List.append_assoc]
          · exact ne_closeBracket he _
          · simp
      simp only [skip_solid _ hsolid, if_neg hfirst, hread, deref_cons, if_true, List.tail_cons]

end Arrays

section Trees

theorem reads_null (nesting : Nat) : Reads (parseValue (nesting + 1)) (chars ['n', 'u', 'l', 'l']) { type := .null } :=
  ⟨by decide, fun _ _ => rfl⟩

theorem reads_false (nesting : Nat) :
    Reads (parseValue (nesting + 1)) (chars ['f', 'a', 'l', 's', 'e']) { type := .false } :=
  ⟨by decide, fun _ _ => rfl⟩

theorem reads_true (nesting : Nat) :
    Reads (parseValue (nesting + 1)) (chars ['t', 'r', 'u', 'e']) { type := .true, valueint := 1#32 } :=
  ⟨by decide, fun _ _ => rfl⟩

theorem reads_empty (nesting tabs : Nat) :
    Reads (parseValue (nesting + 1)) (openBrace :: lineFeed :: (List.replicate tabs tab ++ [closeBrace]))
      { type := .object } := by
  constructor
  · rw [deref_cons]
    decide
  · intro rest _
    have hskip : skip (lineFeed :: (List.replicate tabs tab ++ ([closeBrace] ++ rest))) = closeBrace :: rest := by
      rw [skip_space lineFeed _ (by decide) (by decide), skip_tabs]
      exact skip_solid _ (by rw [List.singleton_append, deref_cons]; decide)
    have hkey : NoKeyword (openBrace :: lineFeed :: (List.replicate tabs tab ++ ([closeBrace] ++ rest))) := by
      rw [NoKeyword, deref_cons]
      decide
    rw [List.cons_append, List.cons_append, List.append_assoc, parseValue_noKeyword nesting _ hkey, deref_cons,
      if_neg (by decide), if_neg (by decide), if_neg (by decide), if_pos rfl, parseObject, List.tail_cons]
    simp only [hskip, deref_cons, if_true, List.tail_cons]

/-- Printed members, each with its key and its value. -/
theorem exists_members (nesting depth bound : Nat) (members : List (Bytes × Item)) (pairs : List (Bytes × Bytes))
    (hz : ∀ m ∈ members, 0#8 ∉ m.1)
    (h : (members.map fun m => { m.2 with string := some m.1 } : List Item).mapM (printMember nesting depth) =
      some pairs)
    (hreads : ∀ m ∈ members, ∀ pair ∈ pairs, printValue nesting (depth + 1) m.2 = some pair.2 →
      Reads (parseValue bound) pair.2 m.2) :
    ∃ ms : List Member, (∀ m ∈ ms, m.Good (parseValue bound)) ∧ (ms.map fun m => (m.out, m.value)) = pairs ∧
      memberItems ms = members.map fun m => { m.2 with string := some m.1 } := by
  rw [mapM_eq_some_iff, List.forall₂_map_left_iff] at h
  induction h with
  | nil => exact ⟨[], by simp, rfl, rfl⟩
  | @cons m pair members pairs hone _ ih =>
    obtain ⟨name, entry⟩ := pair
    obtain ⟨hname, hentry⟩ := (printMember_eq_some_iff _ _ _ _ _).mp hone
    rw [printValue_named] at hentry
    obtain ⟨ms, hgood, hpairs, hitems⟩ := ih (fun n hn => hz n (List.mem_cons_of_mem _ hn))
      fun n hn p hp => hreads n (List.mem_cons_of_mem _ hn) p (List.mem_cons_of_mem _ hp)
    refine ⟨⟨m.1, name, entry, m.2⟩ :: ms, List.forall_mem_cons.mpr ⟨⟨hz m List.mem_cons_self, hname, ?_⟩, hgood⟩,
      by rw [List.map_cons, hpairs], ?_⟩
    · exact hreads m List.mem_cons_self (name, entry) List.mem_cons_self hentry
    · rw [memberItems, List.map_cons, List.map_cons, ← hitems, memberItems]

theorem length_le_joinMembers (depth : Nat) (pairs : List (Bytes × Bytes)) :
    ∀ p ∈ pairs, p.2.length ≤ (joinMembers depth pairs).length := by
  induction pairs with
  | nil => simp
  | cons p pairs ih =>
    refine List.forall_mem_cons.mpr ⟨?_, fun q hq => (ih q hq).trans ?_⟩
    · simp only [joinMembers, List.length_append]
      omega
    · simp only [joinMembers, List.length_append]
      omega

theorem printValue_pos {nesting depth : Nat} {item : Item} {text : Bytes}
    (h : printValue nesting depth item = some text) : ∃ k, nesting = k + 1 := by
  cases nesting with
  | zero => cases h
  | succ k => exact ⟨k, rfl⟩

/-- The printed text of a tree is read back as this tree. -/
theorem reads_print (item : Item) (h : Normal item) (nesting depth : Nat) (text : Bytes)
    (ht : printValue nesting depth item = some text) (n : Nat) (hn : text.length ≤ n) :
    Reads (parseValue (n + 1)) text item := by
  induction h generalizing nesting depth text n with
  | null =>
    obtain ⟨k, rfl⟩ := printValue_pos ht
    obtain rfl := Option.some.inj ht
    exact reads_null n
  | false =>
    obtain ⟨k, rfl⟩ := printValue_pos ht
    obtain rfl := Option.some.inj ht
    exact reads_false n
  | true =>
    obtain ⟨k, rfl⟩ := printValue_pos ht
    obtain rfl := Option.some.inj ht
    exact reads_true n
  | int m hlo hhi =>
    obtain ⟨k, rfl⟩ := printValue_pos ht
    obtain rfl := Option.some.inj ((printNumber_int m hlo hhi).symm.trans ht)
    exact reads_int n m hlo hhi
  | string s hz =>
    obtain ⟨k, rfl⟩ := printValue_pos ht
    exact reads_string n s text hz ht
  | array items h ih =>
    obtain ⟨k, rfl⟩ := printValue_pos ht
    rw [printValue_array k depth _ rfl, Option.map_eq_some_iff] at ht
    obtain ⟨entries, hentries, rfl⟩ := ht
    have hlen := (length_le_joinEntries entries).2
    simp only [List.length_cons, List.length_append, List.length_nil] at hn
    -- the entries are shorter than the array, one less nesting is enough for them
    obtain ⟨m, rfl⟩ : ∃ m, n = m + 1 := ⟨n - 1, by omega⟩
    apply reads_array
    rw [mapM_eq_some_iff] at hentries
    apply List.Forall₂.flip
    rw [List.forall₂_iff_get] at hentries ⊢
    refine ⟨hentries.1, fun i hi hi' => ?_⟩
    have he := hlen _ (List.getElem_mem hi')
    exact ih _ (List.getElem_mem hi) k (depth + 1) _ (hentries.2 i hi hi') m (by simp at he ⊢; omega)
  | object members hz h ih =>
    obtain ⟨k, rfl⟩ := printValue_pos ht
    by_cases he : members = []
    · subst he
      obtain rfl := Option.some.inj ht
      exact reads_empty n (depth - 1)
    · rw [printValue_object k depth _ rfl (by simpa using he), Option.map_eq_some_iff] at ht
      obtain ⟨pairs, hpairs, rfl⟩ := ht
      have hlen := length_le_joinMembers (depth + 1) pairs
      simp only [List.length_cons, List.length_append, List.length_nil] at hn
      obtain ⟨m, rfl⟩ : ∃ m, n = m + 1 := ⟨n - 1, by omega⟩
      obtain ⟨ms, hgood, rfl, hitems⟩ := exists_members k depth (m + 1) members pairs hz hpairs fun c hc p hp hprint =>
        ih c hc k (depth + 1) p.2 hprint m (by have hle := hlen p hp; omega)
      rw [← hitems]
      refine reads_object (m + 1) depth ms hgood fun hnil => he ?_
      rw [hnil] at hitems
      simpa [memberItems] using hitems.symm

/-- Printing a tree returns exactly if every string and key in it can be sized, and what it prints parses back
to the same tree, with any text behind it that cannot continue a number. -/
theorem print_parse (item : Item) (h : Normal item) (depth : Nat) :
    ((∃ nesting text, printValue nesting depth item = some text) ↔ ∀ s ∈ strings item, Prints s) ∧
    ∀ nesting text, printValue nesting depth item = some text →
      ∀ tail, endsNumber (deref tail) → parse (text ++ tail) = some item := by
  refine ⟨returns_iff item h depth, fun nesting text ht tail htail => ?_⟩
  have hreads := reads_print item h nesting depth text ht (text ++ tail).length (by simp)
  rw [parse, skip_solid _ (hreads.solid_append tail), hreads.reads tail htail]
  rfl

/-- An array with an object and an empty object in it. -/
def sample : Item :=
  { type := .array
    child := [{ type := .object
                child := [{ type := .number, valuedouble := (-5 : Int), valueint := BitVec.ofInt 32 (-5)
                            string := some (chars ['I', 'd']) }] },
      { type := .object }, { type := .string, valuestring := some (chars ['o', 'k']) }] }

theorem normal_sample : Normal sample := by
  apply Normal.array
  simp only [List.forall_mem_cons, List.not_mem_nil, false_implies, implies_true, and_true]
  refine ⟨?_, Normal.object [] (by simp) (by simp), Normal.string _ (by decide)⟩
  refine Normal.object [(chars ['I', 'd'], { type := .number, valuedouble := (-5 : Int), valueint := _ })]
    (by simp [chars]) ?_
  rw [List.forall_mem_singleton]
  exact Normal.int (-5) (by norm_num) (by norm_num)

/-- The sample is printed, and its text with the terminator behind it is read back. -/
theorem sample_print_parse : ∃ nesting text, printValue nesting 0 sample = some text ∧
    parse (text ++ [0#8]) = some sample := by
  have hstrings : ∀ s ∈ strings sample, Prints s := by
    rw [show strings sample = [chars ['I', 'd'], chars ['o', 'k']] from rfl]
    simp only [List.forall_mem_cons, List.not_mem_nil, false_implies, implies_true, and_true]
    exact ⟨Or.inl (by decide), Or.inl (by decide)⟩
  have hround := print_parse sample normal_sample 0
  obtain ⟨nesting, text, htext⟩ := hround.1.mpr hstrings
  exact ⟨nesting, text, htext, hround.2 nesting text htext [0#8] (by decide)⟩

end Trees

end DataReceiveRelay.JsonTrees
