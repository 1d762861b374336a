import DataReceiveRelay.ConfigLoad
import DataReceiveRelay.FileScan

/-!
# Where the configuration file ends

`Get_JsonFile` hands the parser a buffer without a terminator, so a document that
stops too early is continued by the memory behind it. The scan of a file says
what each reader of the parser makes of it, whatever lies behind; the parser
stays inside the file and inside its string blocks exactly when the scan does not
go astray.
-/

namespace DataReceiveRelay.FileEnd

open Words Runs Json ParseFuel ParseAccess FileScan Config ConfigLoad

section Readers

/-- What a scan says about a reader. -/
def ReadsAs {α : Type} (read : Bytes → Option (α × Bytes)) (text : Bytes) : Progress → Prop
  | .done rest => rest.length < text.length ∧ ∃ a, ∀ tail, read (text ++ tail) = some (a, rest ++ tail)
  | .fail => ∀ tail, read (text ++ tail) = none
  | .astray => True

theorem skip_append_nil (s u : Bytes) (h : skip s = []) : skip (s ++ u) = skip u := by
  have hall := List.dropWhile_eq_nil_iff.mp h
  exact List.dropWhile_append_of_pos hall

theorem skip_append_cons (s u rest : Bytes) (c : U8) (h : skip s = c :: rest) : skip (s ++ u) = c :: (rest ++ u) := by
  unfold skip at h ⊢
  rw [List.dropWhile_append, h]
  rfl

variable {α β : Type} {read : Bytes → Option (α × Bytes)} {read' : Bytes → Option (β × Bytes)} {text text' : Bytes}
  {p : Progress}

/-- A reader that turns the result of another into its own. -/
theorem ReadsAs.via (f : β → α) (hlen : text'.length ≤ text.length)
    (hread : ∀ v, read (text ++ v) = (read' (text' ++ v)).map fun r => (f r.1, r.2)) (h : ReadsAs read' text' p) :
    ReadsAs read text p := by
  cases p with
  | done rest =>
    obtain ⟨hlt, a, ha⟩ := h
    exact ⟨by omega, f a, fun tail => by rw [hread, ha]; rfl⟩
  | fail => exact fun tail => by rw [hread, h]; rfl
  | astray => trivial

/-- A reader that reads what another does. -/
theorem ReadsAs.congr {other : Bytes → Option (α × Bytes)} (hlen : text'.length ≤ text.length)
    (hread : ∀ v, read (text ++ v) = other (text' ++ v)) (h : ReadsAs other text' p) : ReadsAs read text p :=
  h.via id hlen fun v => (hread v).trans Option.map_id'.symm

/-- Blanks in front make no difference. -/
theorem ReadsAs.skipped {next : U8 → Bytes → Progress}
    (h : ∀ c rest, skip text = c :: rest → ReadsAs read (c :: rest) (next c rest)) :
    ReadsAs (read ∘ skip) text (scanSkipped next text) := by
  unfold scanSkipped
  cases hs : skip text with
  | nil => trivial
  | cons c rest =>
    have hlen := skip_length_le text
    rw [hs] at hlen
    refine (h c rest hs).congr hlen fun v => ?_
    rw [Function.comp_apply, skip_append_cons text v rest c hs, List.cons_append]

/-- Two readers in a row, with blanks between them. -/
theorem ReadsAs.andThen {first : Bytes → Option (β × Bytes)} {second : β → Bytes → Option (α × Bytes)}
    {next : U8 → Bytes → Progress} (h : ReadsAs first text p)
    (hread : ∀ s, read s = (first s).bind fun r => second r.1 (skip r.2))
    (hnext : ∀ b c rest, rest.length + 1 < text.length → ReadsAs (second b) (c :: rest) (next c rest)) :
    ReadsAs read text (p.andThen next) := by
  cases p with
  | fail => exact fun tail => by rw [hread, h]; rfl
  | astray => trivial
  | done rest =>
    obtain ⟨hlt, b, hfirst⟩ := h
    have hskipped : ReadsAs (second b ∘ skip) rest (scanSkipped next rest) := by
      refine ReadsAs.skipped fun c after hs => hnext b c after ?_
      have hlen := skip_length_le rest
      rw [hs, List.length_cons] at hlen
      omega
    exact hskipped.congr hlt.le fun v => by rw [hread, hfirst]; rfl

end Readers

section Scalars

/-- What the scan of a literal has compared. -/
theorem scanLiteral_split (word text : Bytes) :
    match scanLiteral word text with
    | .done rest => text = word ++ rest
    | .fail => ∀ tail, ¬word <+: text ++ tail
    | .astray => True := by
  induction word generalizing text with
  | nil => rfl
  | cons c word ih =>
    cases text with
    | nil => trivial
    | cons d text =>
      rw [scanLiteral]
      by_cases hcd : c = d
      · subst hcd
        have hrest := ih text
        rw [if_pos rfl]
        cases hscan : scanLiteral word text with
        | done rest =>
          rw [hscan] at hrest
          exact congrArg (c :: ·) hrest
        | fail =>
          rw [hscan] at hrest
          exact fun tail hword => hrest tail (List.cons_prefix_cons.mp hword).2
        | astray => trivial
      · rw [if_neg hcd]
        exact fun tail hword => hcd (List.cons_prefix_cons.mp hword).1

/-- A literal on its own. -/
def literal (word : Bytes) (item : Item) (text : Bytes) : Option (Item × Bytes) :=
  if word.isPrefixOf text then some (item, text.drop word.length) else none

theorem literal_append (word rest : Bytes) (item : Item) : literal word item (word ++ rest) = some (item, rest) := by
  rw [literal, if_pos (List.isPrefixOf_iff_prefix.mpr (List.prefix_append word rest)), List.drop_left]

theorem literal_reads (word : Bytes) (item : Item) (text : Bytes) (hword : word ≠ []) :
    ReadsAs (literal word item) text (scanLiteral word text) := by
  have hsplit := scanLiteral_split word text
  cases hscan : scanLiteral word text with
  | done rest =>
    rw [hscan] at hsplit
    have hpos := List.length_pos_iff.mpr hword
    refine ⟨by rw [hsplit, List.length_append]; omega, item, fun tail => ?_⟩
    rw [hsplit, List.append_assoc, literal_append]
  | fail =>
    rw [hscan] at hsplit
    exact fun tail => if_neg fun hpre => hsplit tail (List.isPrefixOf_iff_prefix.mp hpre)
  | astray => trivial

theorem number_reads (text : Bytes) (h : deref text = minus ∨ isDigit (deref text) = true) :
    ReadsAs (some ∘ parseNumber) text (scanNumber text) := by
  unfold scanNumber
  by_cases hends : (parseNumber text).2 = [] ∨ (integerPart text).2 = [46#8]
  · rw [if_pos hends]
    trivial
  · obtain ⟨hend, hpoint⟩ := not_or.mp hends
    rw [if_neg hends]
    refine ⟨parseNumber_length_lt text h, (parseNumber text).1, fun tail => ?_⟩
    rw [Function.comp_apply, (parseNumber_steady text tail hpoint).1 hend]

theorem closeQuote_append (s u : Bytes) (h : s ≠ []) : closeQuote (s ++ u) = closeQuote s ++ u := by
  unfold closeQuote
  rw [deref_append s u h, List.tail_append_of_ne_nil h]
  split
  · rfl
  · rfl

theorem string_reads (text : Bytes) : ReadsAs parseString text (scanString text) := by
  cases text with
  | nil => trivial
  | cons c text =>
    rw [scanString]
    by_cases hc : c = quote
    · subst hc
      have hcopy := copyEnd_spec (text.length + 1) text (Nat.lt_succ_self _)
      rw [if_pos rfl]
      cases sizeOf (text.length + 1) text with
      | none => trivial
      | some size =>
        cases hend : copyEnd (text.length + 1) text with
        | none => trivial
        | some rest =>
          rw [hend] at hcopy
          obtain ⟨hne, hlen, ⟨out, hout⟩, -⟩ := hcopy
          dsimp only
          split
          · refine ⟨Nat.lt_succ_of_le ((closeQuote_length_le rest).trans hlen), cString out, fun tail => ?_⟩
            rw [List.cons_append, parseString_eq, hout, closeQuote_append rest tail hne]
          · trivial
    · rw [if_neg hc]
      exact fun tail => if_pos hc

/-- The first byte chooses the reader. -/
theorem scalar_literal (c : U8) (s : Bytes) :
    (c = 110#8 → scalar (c :: s) = literal (chars ['n', 'u', 'l', 'l']) { type := .null } (c :: s)) ∧
    (c = 102#8 → scalar (c :: s) = literal (chars ['f', 'a', 'l', 's', 'e']) { type := .false } (c :: s)) ∧
    (c = 116#8 → scalar (c :: s) = literal (chars ['t', 'r', 'u', 'e']) { type := .true, valueint := 1#32 } (c :: s)) := by
  have hnot (c : U8) (word : Bytes) (hc : deref word ≠ c) (hword : word ≠ []) : word.isPrefixOf (c :: s) = false := by
    cases word with
    | nil => exact absurd rfl hword
    | cons d word => exact isPrefixOf_deref d word (c :: s) (Ne.symm hc)
  refine ⟨?_, ?_, ?_⟩
  · rintro rfl
    unfold scalar literal
    rw [hnot 110#8 (chars ['f', 'a', 'l', 's', 'e']) (by decide) (by decide),
      hnot 110#8 (chars ['t', 'r', 'u', 'e']) (by decide) (by decide)]
    rfl
  · rintro rfl
    unfold scalar literal
    rw [hnot 102#8 (chars ['n', 'u', 'l', 'l']) (by decide) (by decide),
      hnot 102#8 (chars ['t', 'r', 'u', 'e']) (by decide) (by decide)]
    rfl
  · rintro rfl
    unfold scalar literal
    rw [hnot 116#8 (chars ['n', 'u', 'l', 'l']) (by decide) (by decide),
      hnot 116#8 (chars ['f', 'a', 'l', 's', 'e']) (by decide) (by decide)]
    rfl

/-- Bytes that start no literal. -/
theorem scalar_other (c : U8) (s : Bytes) (hn : c ≠ 110#8) (hf : c ≠ 102#8) (ht : c ≠ 116#8) :
    scalar (c :: s) =
      if c = quote then (parseString (c :: s)).map fun r => ({ type := .string, valuestring := some r.1 }, r.2)
      else if c = minus ∨ isDigit c then some (parseNumber (c :: s))
      else none := by
  have hnull : (chars ['n', 'u', 'l', 'l']).isPrefixOf (c :: s) = false := isPrefixOf_deref _ _ (c :: s) hn
  have hfalse : (chars ['f', 'a', 'l', 's', 'e']).isPrefixOf (c :: s) = false := isPrefixOf_deref _ _ (c :: s) hf
  have htrue : (chars ['t', 'r', 'u', 'e']).isPrefixOf (c :: s) = false := isPrefixOf_deref _ _ (c :: s) ht
  rw [scalar, hnull, hfalse, htrue]
  rfl

theorem scalar_reads (text : Bytes) : ReadsAs scalar text (scanScalar text) := by
  cases text with
  | nil => trivial
  | cons c text =>
    have hother {read : Bytes → Option (Item × Bytes)} {p : Progress} (hread : ∀ v, scalar (c :: v) = read (c :: v))
        (h : ReadsAs read (c :: text) p) : ReadsAs scalar (c :: text) p :=
      h.congr (Nat.le_refl _) fun v => hread (text ++ v)
    rw [scanScalar]
    by_cases hn : c = 110#8
    · rw [if_pos hn]
      exact hother (fun v => (scalar_literal c v).1 hn) (literal_reads _ _ _ (by decide))
    by_cases hf : c = 102#8
    · rw [if_neg hn, if_pos hf]
      exact hother (fun v => (scalar_literal c v).2.1 hf) (literal_reads _ _ _ (by decide))
    by_cases ht : c = 116#8
    · rw [if_neg hn, if_neg hf, if_pos ht]
      exact hother (fun v => (scalar_literal c v).2.2 ht) (literal_reads _ _ _ (by decide))
    rw [if_neg hn, if_neg hf, if_neg ht]
    by_cases hquote : c = quote
    · rw [if_pos hquote]
      refine (string_reads (c :: text)).via (fun s => { type := .string, valuestring := some s }) (Nat.le_refl _)
        fun v => ?_
      rw [List.cons_append, scalar_other c _ hn hf ht, if_pos hquote]
    rw [if_neg hquote]
    by_cases hnumber : c = minus ∨ isDigit c = true
    · rw [if_pos hnumber]
      refine hother (fun v => ?_) (number_reads (c :: text) hnumber)
      rw [scalar_other c v hn hf ht, if_neg hquote, if_pos hnumber]
      rfl
    · rw [if_neg hnumber]
      intro tail
      rw [List.cons_append, scalar_other c _ hn hf ht, if_neg hquote, if_neg hnumber]

end Scalars

section Containers

/-- The elements of a list up to its closing bracket. -/
def closed (element : Bytes → Option (Item × Bytes)) (close : U8) (text : Bytes) : Option (List Item × Bytes) :=
  (elements element text).bind fun r => if deref r.2 = close then some (r.1, r.2.tail) else none

/-- How a list goes on behind one of its elements. -/
def goOn (element : Bytes → Option (Item × Bytes)) (close : U8) (item : Item) (u : Bytes) :
    Option (List Item × Bytes) :=
  if deref u = comma then (closed element close (skip u.tail)).map fun r => (item :: r.1, r.2)
  else if deref u = close then some ([item], u.tail)
  else none

variable {element : Bytes → Option (Item × Bytes)}

theorem closed_eq (hc : Consumes element) (close : U8) (text : Bytes) :
    closed element close text = (element text).bind fun r => goOn element close r.1 (skip r.2) := by
  rw [closed, elements_eq hc]
  cases element text with
  | none => rfl
  | some first =>
    dsimp only [Option.bind_some, goOn]
    by_cases hcomma : deref (skip first.2) = comma
    · rw [if_pos hcomma, if_pos hcomma, closed]
      cases elements element (skip (skip first.2).tail) with
      | none => rfl
      | some more =>
        dsimp only [Option.map_some, Option.bind_some]
        split_ifs <;> rfl
    · rw [if_neg hcomma, if_neg hcomma]
      rfl

theorem elements_read (hc : Consumes element) (scan : Bytes → Progress) (close : U8) (n : Nat)
    (hscan : ∀ text, text.length < n → ReadsAs element text (scan text)) (fuel : Nat) (text : Bytes)
    (hn : text.length < n) (hf : text.length < fuel) :
    ReadsAs (closed element close) text (scanElements scan close fuel text) := by
  induction fuel generalizing text with
  | zero => cases hf
  | succ fuel ih =>
    rw [scanElements]
    refine (hscan text hn).andThen (closed_eq hc close) ?_
    intro item c rest hlen
    have hskip := skip_length_le rest
    by_cases hcomma : c = comma
    · rw [if_pos hcomma]
      have hmore : ReadsAs (closed element close ∘ skip) rest
          (scanSkipped (fun c rest => scanElements scan close fuel (c :: rest)) rest) := by
        refine ReadsAs.skipped fun d after hs => ih (d :: after) ?_ ?_
        · rw [← hs]
          omega
        · rw [← hs]
          omega
      refine hmore.via (item :: ·) (Nat.le_succ _) fun v => ?_
      rw [List.cons_append, goOn, deref_cons, if_pos hcomma]
      rfl
    · rw [if_neg hcomma]
      by_cases hclose : c = close
      · rw [if_pos hclose]
        refine ⟨Nat.lt_succ_self _, [item], fun tail => ?_⟩
        rw [List.cons_append, goOn, deref_cons, if_neg hcomma, if_pos hclose, List.tail_cons]
      · rw [if_neg hclose]
        intro tail
        rw [List.cons_append, goOn, deref_cons, if_neg hcomma, if_neg hclose]

theorem bracketed_eq (close : U8) (type : Kind) (c : U8) (text : Bytes) :
    bracketed element close type (c :: text) =
      if deref (skip text) = close then some ({ type := type }, (skip text).tail)
      else (closed element close (skip text)).map fun r => ({ type := type, child := r.1 }, r.2) := by
  rw [bracketed, List.tail_cons]
  by_cases hclose : deref (skip text) = close
  · rw [if_pos hclose]
    simp only [hclose, if_true]
  · simp only [hclose, if_false, closed, elements]
    cases parseElements element ((skip text).length + 1) (skip text) with
    | none => rfl
    | some r =>
      dsimp only [Option.bind_some]
      split_ifs <;> rfl

theorem bracketed_reads (hc : Consumes element) (scan : Bytes → Progress) (close : U8) (type : Kind) (n : Nat)
    (hscan : ∀ text, text.length < n → ReadsAs element text (scan text)) (c : U8) (text : Bytes) (hn : text.length < n) :
    ReadsAs (bracketed element close type) (c :: text) (scanBracketed scan close text) := by
  unfold scanBracketed scanSkipped
  cases hs : skip text with
  | nil => trivial
  | cons d rest =>
    have hlen := skip_length_le text
    rw [hs, List.length_cons] at hlen
    have hskip (v : Bytes) : skip (text ++ v) = d :: (rest ++ v) := skip_append_cons text v rest d hs
    by_cases hd : d = close
    · dsimp only
      rw [if_pos hd]
      refine ⟨by rw [List.length_cons]; omega, { type := type }, fun tail => ?_⟩
      rw [List.cons_append, bracketed_eq, hskip, deref_cons, if_pos hd, List.tail_cons]
    · dsimp only
      rw [if_neg hd]
      have hlist := elements_read hc scan close n hscan (rest.length + 2) (d :: rest)
        (by rw [List.length_cons]; omega) (by rw [List.length_cons]; omega)
      refine hlist.via (fun items => { type := type, child := items })
        (by rw [List.length_cons, List.length_cons]; omega) fun v => ?_
      rw [List.cons_append, bracketed_eq, hskip, deref_cons, if_neg hd]
      rfl

/-- The rest of a member behind its key. -/
def afterKey (read : Bytes → Option (Item × Bytes)) (key text : Bytes) : Option (Item × Bytes) :=
  if deref text = colon then (read (skip text.tail)).map fun r => ({ r.1 with string := some key }, r.2) else none

theorem parseMember_eq (read : Bytes → Option (Item × Bytes)) (text : Bytes) :
    parseMember read text = (parseString text).bind fun r => afterKey read r.1 (skip r.2) := by
  rw [parseMember]
  cases parseString text with
  | none => rfl
  | some key =>
    dsimp only [Option.bind_some, afterKey]
    by_cases hcolon : deref (skip key.2) = colon
    · rw [if_neg (not_not_intro hcolon), if_pos hcolon]
      cases read (skip (skip key.2).tail) <;> rfl
    · rw [if_pos hcolon, if_neg hcolon]

theorem member_reads {read : Bytes → Option (Item × Bytes)} (scan : Bytes → Progress) (n : Nat)
    (hscan : ∀ text, text.length < n → ReadsAs read text (scan text)) (text : Bytes) (hn : text.length < n) :
    ReadsAs (parseMember read) text (scanMember scan text) := by
  refine (string_reads text).andThen (parseMember_eq read) fun key c rest hlen => ?_
  by_cases hcolon : c = colon
  · rw [if_pos hcolon]
    have hskip := skip_length_le rest
    have hmore : ReadsAs (read ∘ skip) rest (scanSkipped (fun c rest => scan (c :: rest)) rest) := by
      refine ReadsAs.skipped fun d after hs => hscan (d :: after) ?_
      rw [← hs]
      omega
    refine hmore.via (fun item => { item with string := some key }) (Nat.le_succ _) fun v => ?_
    rw [List.cons_append, afterKey, deref_cons, if_pos hcolon]
    rfl
  · rw [if_neg hcolon]
    intro tail
    rw [List.cons_append, afterKey, deref_cons, if_neg hcolon]

theorem value_scalar (text : Bytes) (hbracket : deref text ≠ openBracket) (hbrace : deref text ≠ openBrace) :
    value text = scalar text := by
  rw [value_eq, valueStep, if_neg hbracket, if_neg hbrace]

/-- The scan of a value says what its reader makes of the text. -/
theorem value_reads (depth : Nat) (text : Bytes) (h : text.length < depth) : ReadsAs value text (scanValue depth text) := by
  induction depth generalizing text with
  | zero => cases h
  | succ depth ih =>
    cases text with
    | nil => trivial
    | cons c text =>
      have hlen : text.length < depth := Nat.lt_of_succ_lt_succ h
      rw [scanValue]
      by_cases hbracket : c = openBracket
      · subst hbracket
        rw [if_pos rfl]
        refine (bracketed_reads value_consumes (scanValue depth) closeBracket .array depth ih openBracket text hlen).congr
          (Nat.le_refl _) fun v => ?_
        rw [value_eq, valueStep, List.cons_append, deref_cons, if_pos rfl]
      rw [if_neg hbracket]
      by_cases hbrace : c = openBrace
      · subst hbrace
        rw [if_pos rfl]
        refine (bracketed_reads (parseMember_consumes value_consumes) (scanMember (scanValue depth)) closeBrace .object
          depth (member_reads (scanValue depth) depth ih) openBrace text hlen).congr (Nat.le_refl _) fun v => ?_
        rw [value_eq, valueStep, List.cons_append, deref_cons, if_neg (by decide), if_pos rfl]
      · rw [if_neg hbrace]
        exact (scalar_reads (c :: text)).congr (Nat.le_refl _) fun v => value_scalar (c :: (text ++ v)) hbracket hbrace

end Containers

section Stays

variable (tail : Bytes)

theorem compare_stays (word text : Bytes) :
    Inside tail (compareAccesses word (text ++ tail)) ↔ scanLiteral word text ≠ .astray := by
  induction word generalizing text with
  | nil => simp [compareAccesses, scanLiteral]
  | cons c word ih =>
    cases text with
    | nil => simp [compareAccesses, scanLiteral]
    | cons d text =>
      have hfirst : tail.length < (d :: (text ++ tail)).length := by
        rw [List.length_cons, List.length_append]
        omega
      rw [List.cons_append, compareAccesses, scanLiteral, inside_cons, inside_load, and_iff_right hfirst, deref_cons,
        List.tail_cons]
      by_cases hcd : d = c
      · rw [if_pos hcd, if_pos hcd.symm, ih]
      · rw [if_neg hcd, if_neg (Ne.symm hcd)]
        simp

/-- A word that begins with another byte is compared no further. -/
theorem compare_other (word : Bytes) (c : U8) (text : Bytes) (hword : word ≠ []) (hc : deref word ≠ c) :
    Inside tail (compareAccesses word (c :: text ++ tail)) ∧ word.isPrefixOf (c :: text ++ tail) = false := by
  cases word with
  | nil => exact absurd rfl hword
  | cons d word =>
    refine ⟨(compare_stays tail (d :: word) (c :: text)).mpr ?_, isPrefixOf_deref d word (c :: text ++ tail) (Ne.symm hc)⟩
    rw [deref_cons] at hc
    rw [scanLiteral, if_neg hc]
    simp

/-- The literal that begins with the first byte decides whether the three comparisons stay inside. -/
theorem literal_stays (c : U8) (text : Bytes) :
    (c = 110#8 → (Inside tail (literalAccesses (c :: text ++ tail)) ↔
      scanLiteral (chars ['n', 'u', 'l', 'l']) (c :: text) ≠ .astray)) ∧
    (c = 102#8 → (Inside tail (literalAccesses (c :: text ++ tail)) ↔
      scanLiteral (chars ['f', 'a', 'l', 's', 'e']) (c :: text) ≠ .astray)) ∧
    (c = 116#8 → (Inside tail (literalAccesses (c :: text ++ tail)) ↔
      scanLiteral (chars ['t', 'r', 'u', 'e']) (c :: text) ≠ .astray)) ∧
    (c ≠ 110#8 → c ≠ 102#8 → c ≠ 116#8 →
      Inside tail (literalAccesses (c :: text ++ tail)) ∧ isLiteral (c :: text ++ tail) = false) := by
  have hnull (hc : c ≠ 110#8) := compare_other tail (chars ['n', 'u', 'l', 'l']) c text (by decide) (Ne.symm hc)
  have hfalse (hc : c ≠ 102#8) := compare_other tail (chars ['f', 'a', 'l', 's', 'e']) c text (by decide) (Ne.symm hc)
  have htrue (hc : c ≠ 116#8) := compare_other tail (chars ['t', 'r', 'u', 'e']) c text (by decide) (Ne.symm hc)
  unfold literalAccesses isLiteral
  refine ⟨fun hc => ?_, fun hc => ?_, fun hc => ?_, fun hn hf ht => ?_⟩
  · have hf := hfalse (by rw [hc]; decide)
    have ht := htrue (by rw [hc]; decide)
    rw [inside_append, compare_stays, hf.2, if_neg Bool.false_ne_true, and_iff_left]
    split
    · exact inside_nil
    · exact (inside_append _ _).mpr ⟨hf.1, ht.1⟩
  · have hn := hnull (by rw [hc]; decide)
    have ht := htrue (by rw [hc]; decide)
    rw [hn.2, if_neg Bool.false_ne_true, inside_append, inside_append, and_iff_right hn.1, compare_stays, and_iff_left]
    split
    · exact inside_nil
    · exact ht.1
  · have hn := hnull (by rw [hc]; decide)
    have hf := hfalse (by rw [hc]; decide)
    rw [hn.2, hf.2, if_neg Bool.false_ne_true, if_neg Bool.false_ne_true, inside_append, inside_append,
      and_iff_right hn.1, and_iff_right hf.1, compare_stays]
  · have hn := hnull hn
    have hf := hfalse hf
    have ht := htrue ht
    rw [hn.2, hf.2, ht.2, if_neg Bool.false_ne_true, if_neg Bool.false_ne_true, inside_append, inside_append]
    exact ⟨⟨hn.1, hf.1, ht.1⟩, rfl⟩

theorem number_stays (text : Bytes) :
    Inside tail (numberAccesses (text ++ tail)) ↔ scanNumber text ≠ .astray := by
  have hle (s : Bytes) : (parseNumber s).2.length ≤ (integerPart s).2.length := by
    rw [parseNumber_rest]
    exact (parseExponent_length_le _).trans (parseFraction_length_le _ _)
  have hlen (s : Bytes) : (parseNumber s).2.length ≤ s.length :=
    (hle s).trans ((parseInteger_length_le _).trans (parseSign_length_le s))
  rw [numberAccesses, inside_append, inside_through _ _ (hlen _), scanNumber]
  by_cases hpoint : (integerPart text).2 = [46#8]
  · -- the byte behind the point is looked at
    have hinteger := integerPart_append text tail (by rw [hpoint]; simp)
    have hscan : (if (parseNumber text).2 = [] ∨ (integerPart text).2 = [46#8] then Progress.astray
        else .done (parseNumber text).2) = .astray := if_pos (.inr hpoint)
    rw [hscan, hinteger, hpoint, List.singleton_append, deref_cons, if_pos rfl, List.tail_cons]
    simp
  have hsteady := parseNumber_steady text tail hpoint
  by_cases hend : (parseNumber text).2 = []
  · have hpast := hsteady.2 hend
    exact iff_of_false (fun h => absurd h.1 (Nat.not_lt.mpr hpast)) (fun h => h (if_pos (.inl hend)))
  · have hinteger : (integerPart text).2 ≠ [] := by
      intro hnil
      have hzero := hle text
      rw [hnil, List.length_nil, Nat.le_zero, List.length_eq_zero_iff] at hzero
      exact hend hzero
    have hpos := List.length_pos_iff.mpr hend
    rw [if_neg (not_or.mpr ⟨hend, hpoint⟩), hsteady.1 hend, integerPart_append text tail hinteger]
    refine iff_of_true ⟨by rw [List.length_append]; omega, ?_⟩ (by simp)
    cases hrest : (integerPart text).2 with
    | nil => exact absurd hrest hinteger
    | cons d rest =>
      rw [List.cons_append, deref_cons, List.tail_cons]
      split
      · next hd =>
        have hne : rest ≠ [] := by
          rintro rfl
          exact hpoint (by rw [hrest, hd])
        have hpos := List.length_pos_iff.mpr hne
        rw [inside_cons, inside_load, List.length_append]
        exact ⟨by omega, inside_nil⟩
      · exact inside_nil

theorem string_stays (text : Bytes) :
    Inside tail (stringAccesses (text ++ tail)) ↔ scanString text ≠ .astray := by
  cases text with
  | nil => simp [stringAccesses, scanString]
  | cons c text =>
    have hfirst : tail.length < (c :: (text ++ tail)).length := by
      rw [List.length_cons, List.length_append]
      omega
    rw [List.cons_append, stringAccesses, inside_cons, inside_load, and_iff_right hfirst, deref_cons, scanString]
    by_cases hc : c = quote
    · have hsize := sizeOf_spec (text.length + 1) text (Nat.lt_succ_self _) tail (c :: (text ++ tail)).length
        (Nat.lt_succ_self _)
      have hcopy := copyEnd_spec (text.length + 1) text (Nat.lt_succ_self _)
      rw [if_neg (not_not_intro hc), if_pos hc, List.tail_cons, inside_append, inside_append]
      cases hsizeOf : sizeOf (text.length + 1) text with
      | none =>
        rw [hsizeOf] at hsize
        exact iff_of_false (fun h => hsize h.1.1) fun h => h rfl
      | some size =>
        rw [hsizeOf] at hsize
        cases hend : copyEnd (text.length + 1) text with
        | none =>
          rw [hend] at hcopy
          exact iff_of_false (fun h => hcopy tail _ (Nat.lt_succ_self _) h.1.2) fun h => h rfl
        | some rest =>
          rw [hend] at hcopy
          obtain ⟨-, -, ⟨out, hout⟩, hinside⟩ := hcopy
          have hstored : (parseStringLoop (c :: (text ++ tail)).length (text ++ tail)).1 = (stringLoop text).1 := by
            have halone := hout []
            rw [List.append_nil] at halone
            exact (congrArg Prod.fst (hout tail)).trans (congrArg Prod.fst halone).symm
          rw [and_iff_right ⟨hsize.2, hinside tail _ (Nat.lt_succ_self _)⟩, hsize.1, hstored, inside_cons, inside_copy,
            and_iff_left inside_nil, Nat.add_le_add_iff_right]
          dsimp only
          split
          · next hle => exact iff_of_true hle (by simp)
          · next hle => exact iff_of_false hle fun h => h rfl
    · rw [if_pos hc, if_neg hc]
      exact iff_of_true inside_nil (by simp)

/-- Blanks, and what is read behind them. -/
theorem skipped_stays (accesses : Bytes → List Access) (next : U8 → Bytes → Progress) (text : Bytes)
    (h : ∀ c rest, skip text = c :: rest → (Inside tail (accesses (c :: rest ++ tail)) ↔ next c rest ≠ .astray)) :
    Inside tail (skipAccesses (text ++ tail) ++ accesses (skip (text ++ tail))) ↔ scanSkipped next text ≠ .astray := by
  rw [inside_append, inside_skip]
  unfold scanSkipped
  cases hs : skip text with
  | nil =>
    have hlen := skip_length_le tail
    rw [skip_append_nil text tail hs]
    exact iff_of_false (fun h => absurd h.1 (Nat.not_lt.mpr hlen)) fun h => h rfl
  | cons c rest =>
    rw [skip_append_cons text tail rest c hs, ← List.cons_append, h c rest hs, and_iff_right_iff_imp]
    intro _
    rw [List.length_append, List.length_cons]
    omega

/-- Two readers in a row, with blanks between them. -/
theorem andThen_stays {α : Type} {first : Bytes → Option (α × Bytes)} {text : Bytes} {p : Progress}
    (next : U8 → Bytes → Progress) {accesses after : List Access} (more : Bytes → List Access)
    (hnone : first (text ++ tail) = none → after = [])
    (hsome : ∀ a rest, first (text ++ tail) = some (a, rest) → after = skipAccesses rest ++ more (skip rest))
    (hread : ReadsAs first text p) (hfirst : Inside tail accesses ↔ p ≠ .astray)
    (hnext : ∀ c rest, rest.length + 1 < text.length → (Inside tail (more (c :: rest ++ tail)) ↔ next c rest ≠ .astray)) :
    Inside tail (accesses ++ after) ↔ p.andThen next ≠ .astray := by
  rw [inside_append, hfirst]
  cases p with
  | astray => exact iff_of_false (fun h => h.1 rfl) fun h => h rfl
  | fail =>
    rw [hnone (hread tail)]
    exact iff_of_true ⟨by simp, inside_nil⟩ (by simp [Progress.andThen])
  | done rest =>
    obtain ⟨hlt, a, ha⟩ := hread
    rw [hsome a (rest ++ tail) (ha tail), and_iff_right (by simp)]
    refine skipped_stays tail more next rest fun c after hs => hnext c after ?_
    have hlen := skip_length_le rest
    rw [hs, List.length_cons] at hlen
    omega

variable {element : Bytes → Option (Item × Bytes)} (accesses : Bytes → List Access) (scan : Bytes → Progress) (n : Nat)

theorem elements_stay (close : U8) (hread : ∀ text, text.length < n → ReadsAs element text (scan text))
    (hstay : ∀ text, text.length < n → (Inside tail (accesses (text ++ tail)) ↔ scan text ≠ .astray)) (fuel : Nat)
    (text : Bytes) (hn : text.length < n) (hf : text.length < fuel) (k : Nat) (hk : (text ++ tail).length < k) :
    Inside tail (elementsAccesses element accesses k (text ++ tail)) ↔
      scanElements scan close fuel text ≠ .astray := by
  induction fuel generalizing text k with
  | zero => cases hf
  | succ fuel ih =>
    obtain ⟨k, rfl⟩ : ∃ k', k = k' + 1 := ⟨k - 1, by omega⟩
    rw [List.length_append] at hk
    rw [elementsAccesses, scanElements]
    refine andThen_stays tail (fun c rest =>
        if c = comma then scanSkipped (fun c rest => scanElements scan close fuel (c :: rest)) rest
        else if c = close then .done rest else .fail)
      (fun v => if deref v = comma then
        skipAccesses v.tail ++ elementsAccesses element accesses k (skip v.tail) else [])
      (fun hnone => by rw [hnone]) (fun item rest hsome => by rw [hsome]) (hread text hn) (hstay text hn) ?_
    intro c rest hlen
    rw [List.cons_append, deref_cons, List.tail_cons]
    by_cases hcomma : c = comma
    · rw [if_pos hcomma, if_pos hcomma]
      refine skipped_stays tail (elementsAccesses element accesses k) _ rest ?_
      intro d after hs
      have hskip := skip_length_le rest
      rw [hs, List.length_cons] at hskip
      exact ih (d :: after) (by rw [List.length_cons]; omega) (by rw [List.length_cons]; omega) k
        (by rw [List.length_append, List.length_cons]; omega)
    · rw [if_neg hcomma, if_neg hcomma]
      refine iff_of_true inside_nil ?_
      split
      · simp
      · simp

theorem bracketed_stays (close : U8) (hread : ∀ text, text.length < n → ReadsAs element text (scan text))
    (hstay : ∀ text, text.length < n → (Inside tail (accesses (text ++ tail)) ↔ scan text ≠ .astray)) (c : U8)
    (text : Bytes) (hn : text.length < n) (k : Nat) (hk : (text ++ tail).length < k) :
    Inside tail (bracketedAccesses element accesses close k (c :: text ++ tail)) ↔
      scanBracketed scan close text ≠ .astray := by
  rw [bracketedAccesses, List.cons_append, List.tail_cons]
  refine skipped_stays tail (fun v => if deref v = close then [] else elementsAccesses element accesses k v) _ text ?_
  intro d rest hs
  have hskip := skip_length_le text
  rw [hs, List.length_cons] at hskip
  rw [List.length_append] at hk
  rw [List.cons_append, deref_cons]
  by_cases hd : d = close
  · rw [if_pos hd, if_pos hd]
    exact iff_of_true inside_nil (by simp)
  · rw [if_neg hd, if_neg hd]
    exact elements_stay tail accesses scan n close hread hstay (rest.length + 2) (d :: rest)
      (by rw [List.length_cons]; omega) (by rw [List.length_cons]; omega) k
      (by rw [List.length_append, List.length_cons]; omega)

theorem member_stays (hstay : ∀ text, text.length < n → (Inside tail (accesses (text ++ tail)) ↔ scan text ≠ .astray))
    (text : Bytes) (hn : text.length < n) :
    Inside tail (memberAccesses accesses (text ++ tail)) ↔ scanMember scan text ≠ .astray := by
  rw [memberAccesses, scanMember]
  refine andThen_stays tail (fun c rest =>
      if c = colon then scanSkipped (fun c rest => scan (c :: rest)) rest else .fail)
    (fun v => if deref v = colon then skipAccesses v.tail ++ accesses (skip v.tail) else [])
    (fun hnone => by rw [hnone]) (fun key rest hsome => by rw [hsome]) (string_reads text) (string_stays tail text) ?_
  intro c rest hlen
  rw [List.cons_append, deref_cons, List.tail_cons]
  by_cases hcolon : c = colon
  · rw [if_pos hcolon, if_pos hcolon]
    refine skipped_stays tail accesses _ rest fun d after hs => hstay (d :: after) ?_
    have hskip := skip_length_le rest
    rw [hs] at hskip
    omega
  · rw [if_neg hcolon, if_neg hcolon]
    exact iff_of_true inside_nil (by simp)

/-- Behind a literal nothing more is read. -/
theorem valueAccesses_literal (k : Nat) (c : U8) (s : Bytes) (hc : c = 110#8 ∨ c = 102#8 ∨ c = 116#8) :
    valueAccesses (k + 1) (c :: s) = literalAccesses (c :: s) := by
  have hquote : c ≠ quote := by rcases hc with rfl | rfl | rfl <;> decide
  have hnumber : ¬(c = minus ∨ isDigit c = true) := by rcases hc with rfl | rfl | rfl <;> decide
  have hbracket : c ≠ openBracket := by rcases hc with rfl | rfl | rfl <;> decide
  have hbrace : c ≠ openBrace := by rcases hc with rfl | rfl | rfl <;> decide
  rw [valueAccesses, deref_cons, if_neg hquote, if_neg hnumber, if_neg hbracket, if_neg hbrace, ite_self,
    List.append_nil]

/-- The parser stays inside a value exactly when the scan does. -/
theorem value_stays (depth : Nat) (text : Bytes) (h : text.length < depth) (k : Nat) (hk : (text ++ tail).length < k) :
    Inside tail (valueAccesses k (text ++ tail)) ↔ scanValue depth text ≠ .astray := by
  induction depth generalizing text k with
  | zero => cases h
  | succ depth ih =>
    obtain ⟨k, rfl⟩ : ∃ k', k = k' + 1 := ⟨k - 1, by omega⟩
    cases text with
    | nil =>
      refine iff_of_false (fun hinside => ?_) fun hno => hno rfl
      rw [List.nil_append, valueAccesses, literalAccesses, inside_append, inside_append] at hinside
      exact (compare_stays tail (chars ['n', 'u', 'l', 'l']) []).mp hinside.1.1 rfl
    | cons c text =>
      have hlen : text.length < depth := Nat.lt_of_succ_lt_succ h
      have hk' : (text ++ tail).length < k := Nat.lt_of_succ_lt_succ hk
      obtain ⟨hnull, hfalse, htrue, hother⟩ := literal_stays tail c text
      have hliteral (hc : c = 110#8 ∨ c = 102#8 ∨ c = 116#8) :
          valueAccesses (k + 1) (c :: text ++ tail) = literalAccesses (c :: text ++ tail) :=
        valueAccesses_literal k c (text ++ tail) hc
      have hvalue : ∀ inner, inner.length < text.length + 1 →
          (Inside tail (valueAccesses k (inner ++ tail)) ↔ scanValue depth inner ≠ .astray) := by
        intro inner hinner
        rw [List.length_append] at hk'
        exact ih inner (by omega) k (by rw [List.length_append]; omega)
      have hreads : ∀ inner, inner.length < text.length + 1 → ReadsAs value inner (scanValue depth inner) :=
        fun inner hinner => value_reads depth inner (by omega)
      rw [scanValue, scanScalar]
      by_cases hn : c = 110#8
      · rw [hliteral (.inl hn), hnull hn, if_neg (by rw [hn]; decide), if_neg (by rw [hn]; decide), if_pos hn]
      by_cases hf : c = 102#8
      · rw [hliteral (.inr (.inl hf)), hfalse hf, if_neg (by rw [hf]; decide), if_neg (by rw [hf]; decide), if_neg hn,
          if_pos hf]
      by_cases ht : c = 116#8
      · rw [hliteral (.inr (.inr ht)), htrue ht, if_neg (by rw [ht]; decide), if_neg (by rw [ht]; decide), if_neg hn,
          if_neg hf, if_pos ht]
      obtain ⟨hcompared, hno⟩ := hother hn hf ht
      rw [if_neg hn, if_neg hf, if_neg ht, valueAccesses, inside_append, and_iff_right hcompared, hno,
        if_neg Bool.false_ne_true, List.cons_append, deref_cons, ← List.cons_append]
      by_cases hquote : c = quote
      · rw [if_pos hquote, if_neg (by rw [hquote]; decide), if_neg (by rw [hquote]; decide), if_pos hquote]
        exact string_stays tail (c :: text)
      rw [if_neg hquote, if_neg hquote]
      by_cases hnumber : c = minus ∨ isDigit c = true
      · have hbracket : c ≠ openBracket := by rintro rfl; revert hnumber; decide
        have hbrace : c ≠ openBrace := by rintro rfl; revert hnumber; decide
        rw [if_pos hnumber, if_neg hbracket, if_neg hbrace, if_pos hnumber]
        exact number_stays tail (c :: text)
      rw [if_neg hnumber, if_neg hnumber]
      by_cases hbracket : c = openBracket
      · rw [if_pos hbracket, if_pos hbracket]
        exact bracketed_stays tail (valueAccesses k) (scanValue depth) (text.length + 1) closeBracket hreads hvalue c text
          (Nat.lt_succ_self _) k hk'
      rw [if_neg hbracket, if_neg hbracket]
      by_cases hbrace : c = openBrace
      · rw [if_pos hbrace, if_pos hbrace]
        exact bracketed_stays tail (memberAccesses (valueAccesses k)) (scanMember (scanValue depth)) (text.length + 1)
          closeBrace (member_reads (scanValue depth) (text.length + 1) hreads)
          (member_stays tail (valueAccesses k) (scanValue depth) (text.length + 1) hvalue) c text (Nat.lt_succ_self _) k hk'
      · rw [if_neg hbrace, if_neg hbrace]
        exact iff_of_true inside_nil (by simp)

/-- The whole parse. -/
theorem parse_stays (bytes : Bytes) :
    Inside tail (parseAccesses (bytes ++ tail)) ↔ scanDocument bytes ≠ .astray := by
  have hlen (u : Bytes) : (skip u).length < (skip u).length + 1 := Nat.lt_succ_self _
  rw [parseAccesses]
  refine skipped_stays tail (fun v => valueAccesses (v.length + 1) v) _ bytes fun c rest _ => ?_
  exact value_stays tail (rest.length + 2) (c :: rest) (Nat.lt_succ_self _) _ (Nat.lt_succ_self _)

end Stays

section FileOnly

/-- A document that does not go astray is parsed the same with anything behind it. -/
theorem parse_append (bytes : Bytes) (h : scanDocument bytes ≠ .astray) (tail₁ tail₂ : Bytes) :
    parse (bytes ++ tail₁) = parse (bytes ++ tail₂) := by
  have hreads : ReadsAs (value ∘ skip) bytes (scanDocument bytes) :=
    ReadsAs.skipped fun c rest _ => value_reads (rest.length + 2) (c :: rest) (Nat.lt_succ_self _)
  have hparse (tail : Bytes) : parse (bytes ++ tail) = ((value ∘ skip) (bytes ++ tail)).map Prod.fst :=
    parse_eq (bytes ++ tail)
  cases hscan : scanDocument bytes with
  | done rest =>
    rw [hscan] at hreads
    obtain ⟨-, item, hitem⟩ := hreads
    rw [hparse, hparse, hitem, hitem]
    rfl
  | fail =>
    rw [hscan] at hreads
    rw [hparse, hparse, hreads, hreads]
  | astray => exact absurd hscan h

/-- The parser stays in the file and in its string blocks, and no two contents of the memory behind the file give
different codes or tables. -/
def FileOnly (bytes : Bytes) : Prop :=
  (∀ tail, Inside tail (blockAccesses (fileBlock bytes) tail)) ∧
    ∀ tail₁ tail₂ config, getJsonFileOf .ok .ok bytes tail₁ config = getJsonFileOf .ok .ok bytes tail₂ config

theorem block_stays (block tail : Bytes) :
    Inside tail (blockAccesses block tail) ↔ block = [] ∨ scanDocument block ≠ .astray := by
  unfold blockAccesses
  split
  · next hnil => exact iff_of_true inside_nil (.inl hnil)
  · next hne => rw [parse_stays, or_iff_right hne]

theorem stringsFit_of_inside (block tail : Bytes) (h : Inside tail (blockAccesses block tail)) : StringsFit block tail :=
  fun x hx => fits_of_inside tail x (h x hx)

theorem parseBlock_append (block : Bytes) (h : block = [] ∨ scanDocument block ≠ .astray) (tail₁ tail₂ : Bytes) :
    parseBlock block tail₁ = parseBlock block tail₂ := by
  unfold parseBlock
  split
  · rfl
  · next hne => exact parse_append block (h.resolve_left hne) tail₁ tail₂

/-- The load depends on the file alone exactly when nothing of it is read, or the scan of what is read does not go
astray: it ends behind a whole value, or at a byte that no continuation makes right. -/
theorem getJsonFile_fileOnly_iff (bytes : Bytes) :
    FileOnly bytes ↔ fileBlock bytes = [] ∨ scanDocument (fileBlock bytes) ≠ .astray := by
  constructor
  · rintro ⟨hinside, -⟩
    exact (block_stays (fileBlock bytes) []).mp (hinside [])
  · intro h
    have hinside (tail : Bytes) := (block_stays (fileBlock bytes) tail).mpr h
    refine ⟨hinside, fun tail₁ tail₂ config => ?_⟩
    rw [getJsonFileOf_ok bytes tail₁ config (stringsFit_of_inside _ tail₁ (hinside tail₁)),
      getJsonFileOf_ok bytes tail₂ config (stringsFit_of_inside _ tail₂ (hinside tail₂))]
    simp only [getJsonFile, parseBlock_append (fileBlock bytes) h tail₁ tail₂]

/-- A list is whole with its bracket, a number only with a byte behind it. -/
example : scanDocument (chars ['[', ']']) = .done [] ∧ scanDocument (chars ['1']) = .astray ∧
    scanDocument (chars ['x']) = .fail := by decide

/-- A configuration file cut behind its first entry. -/
def cutDocument : Bytes :=
  chars ['\x7b', '"', 'C', 'o', 'n', 'f', 'i', 'g', 'F', 'i', 'l', 'e', '"', ':', '[', '\x7b', '\x7d']

/-- With the brackets behind it the first entry is emptied, with anything else nothing is loaded. -/
theorem cutDocument_tails :
    (getJsonFileOf .ok .ok cutDocument (chars [']', '\x7d']) defaultConfig).map (fun r => (r.2 0).name) = some none ∧
      (getJsonFileOf .ok .ok cutDocument (chars ['x']) defaultConfig).map (fun r => (r.2 0).name) =
        some (some baudrateName) ∧
      ¬FileOnly cutDocument := by
  have hempty : (getJsonFileOf .ok .ok cutDocument (chars [']', '\x7d']) defaultConfig).map (fun r => (r.2 0).name) =
      some none := by decide
  have hname : (getJsonFileOf .ok .ok cutDocument (chars ['x']) defaultConfig).map (fun r => (r.2 0).name) =
      some (some baudrateName) := by decide
  refine ⟨hempty, hname, fun hsame => ?_⟩
  rw [hsame.2 (chars [']', '\x7d']) (chars ['x']) defaultConfig, hname] at hempty
  cases hempty

end FileOnly

end DataReceiveRelay.FileEnd
