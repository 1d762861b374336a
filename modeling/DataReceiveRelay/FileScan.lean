import DataReceiveRelay.ParseAccess

/-!
# How far the bytes of a document go

The scanner follows the parser over the bytes of a file alone and says how far
they go: to the end of a value, to a byte that no continuation can repair, or
astray, where the parser reads behind the end of the file or stores a string
behind its block. The lemmas below take the leaves first: numbers and strings
are read the same with anything behind them unless they go astray.
-/

namespace DataReceiveRelay.FileScan

open Words Json ParseFuel ParseAccess

/-- How far a text goes. -/
inductive Progress where
  | done (rest : Bytes)
  | fail
  | astray
  deriving DecidableEq, Repr

section Scanner

def scanLiteral : Bytes → Bytes → Progress
  | [], text => .done text
  | _ :: _, [] => .astray
  | c :: word, d :: text => if c = d then scanLiteral word text else .fail

/-- A number needs the byte behind it, and a decimal point the byte behind that. -/
def scanNumber (text : Bytes) : Progress :=
  if (parseNumber text).2 = [] ∨ (integerPart text).2 = [46#8] then .astray
  else .done (parseNumber text).2

/-- The text behind the second half of a surrogate pair, or behind the first if none follows. -/
def pairEnd : Bytes → Option Bytes
  | [] => none
  | [x] => if x = backslash then none else some [x]
  | x :: y :: text =>
    if x = backslash ∧ y = 117#8 then if text.length < 4 then none else some (text.drop 4)
    else some (x :: y :: text)

/-- The text behind an escape, if all of it is there. -/
def escapeEnd : Bytes → Option Bytes
  | [] => none
  | e :: text =>
    if e ≠ 117#8 then some text
    else if text.length < 4 then none
    else if highSurrogate (parseHex4 text) then pairEnd (text.drop 4)
    else some (text.drop 4)

/-- The text at the quote or zero byte that ends the copying loop. -/
def copyEnd : Nat → Bytes → Option Bytes
  | 0, _ => none
  | _ + 1, [] => none
  | fuel + 1, c :: text =>
    if c = quote ∨ c = 0#8 then some (c :: text)
    else if c ≠ backslash then copyEnd fuel text
    else (escapeEnd text).bind (copyEnd fuel)

/-- The characters that the counting loop finds. -/
def sizeOf : Nat → Bytes → Option Nat
  | 0, _ => none
  | _ + 1, [] => none
  | fuel + 1, c :: text =>
    if c = quote ∨ c = 0#8 then some 0
    else if c ≠ backslash then (sizeOf fuel text).map (· + 1)
    else (sizeOf fuel text.tail).map (· + 1)

/-- Both loops end in the file, and no more is copied than was counted. -/
def scanString : Bytes → Progress
  | [] => .astray
  | c :: text =>
    if c = quote then
      match sizeOf (text.length + 1) text, copyEnd (text.length + 1) text with
      | some size, some rest => if (stringLoop text).1.length ≤ size then .done (closeQuote rest) else .astray
      | _, _ => .astray
    else .fail

def scanScalar : Bytes → Progress
  | [] => .astray
  | c :: text =>
    if c = 110#8 then scanLiteral (chars ['n', 'u', 'l', 'l']) (c :: text)
    else if c = 102#8 then scanLiteral (chars ['f', 'a', 'l', 's', 'e']) (c :: text)
    else if c = 116#8 then scanLiteral (chars ['t', 'r', 'u', 'e']) (c :: text)
    else if c = quote then scanString (c :: text)
    else if c = minus ∨ isDigit c then scanNumber (c :: text)
    else .fail

/-- What follows is decided by the next byte that is no blank. -/
def scanSkipped (next : U8 → Bytes → Progress) (text : Bytes) : Progress :=
  match skip text with
  | [] => .astray
  | c :: rest => next c rest

def Progress.andThen (next : U8 → Bytes → Progress) : Progress → Progress
  | .done rest => scanSkipped next rest
  | .fail => .fail
  | .astray => .astray

def scanElements (scan : Bytes → Progress) (close : U8) : Nat → Bytes → Progress
  | 0, _ => .astray
  | fuel + 1, text =>
    (scan text).andThen fun c rest =>
      if c = comma then scanSkipped (fun c rest => scanElements scan close fuel (c :: rest)) rest
      else if c = close then .done rest
      else .fail

/-- The text behind an opening bracket. -/
def scanBracketed (scan : Bytes → Progress) (close : U8) : Bytes → Progress :=
  scanSkipped fun c rest => if c = close then .done rest else scanElements scan close (rest.length + 2) (c :: rest)

def scanMember (scan : Bytes → Progress) (text : Bytes) : Progress :=
  (scanString text).andThen fun c rest =>
    if c = colon then scanSkipped (fun c rest => scan (c :: rest)) rest else .fail

def scanValue : Nat → Bytes → Progress
  | 0, _ => .astray
  | _ + 1, [] => .astray
  | depth + 1, c :: text =>
    if c = openBracket then scanBracketed (scanValue depth) closeBracket text
    else if c = openBrace then scanBracketed (scanMember (scanValue depth)) closeBrace text
    else scanScalar (c :: text)

/-- The whole file. -/
def scanDocument : Bytes → Progress := scanSkipped fun c rest => scanValue (rest.length + 2) (c :: rest)

end Scanner

section Numbers

/-- What a reader leaves inside a text it leaves with anything behind it; otherwise it gets through the text. -/
def Steady {α : Type} (read : Bytes → α × Bytes) (s u : Bytes) : Prop :=
  ((read s).2 ≠ [] → read (s ++ u) = ((read s).1, (read s).2 ++ u)) ∧
    ((read s).2 = [] → (read (s ++ u)).2.length ≤ u.length)

variable {α β : Type}

theorem steady_nil (read : Bytes → α × Bytes) (hle : ∀ t, (read t).2.length ≤ t.length) (u : Bytes) :
    Steady read [] u :=
  ⟨fun hne => absurd (List.length_eq_zero_iff.mp (Nat.le_zero.mp (hle []))) hne, fun _ => hle u⟩

/-- A reader that leaves a fixed front of the text alone. -/
theorem steady_of_append {read : Bytes → α × Bytes} (s u : Bytes)
    (h : read (s ++ u) = ((read s).1, (read s).2 ++ u)) : Steady read s u :=
  ⟨fun _ => h, fun hnil => by rw [h, hnil, List.nil_append]⟩

theorem Steady.map {read : Bytes → α × Bytes} {s u : Bytes} (f : α → β) (h : Steady read s u) :
    Steady (fun t => (f (read t).1, (read t).2)) s u := by
  refine ⟨fun hne => ?_, h.2⟩
  have happ := h.1 hne
  simp only [happ]

/-- Two readers in a row. -/
theorem Steady.andThen {first : Bytes → α × Bytes} (second : α → Bytes → β × Bytes) {s u : Bytes}
    (h : Steady first s u) (hsecond : Steady (second (first s).1) (first s).2 u)
    (hle : ∀ a t, (second a t).2.length ≤ t.length) : Steady (fun t => second (first t).1 (first t).2) s u := by
  by_cases hnil : (first s).2 = []
  · have hrest := hle (first s).1 (first s).2
    rw [hnil, List.length_nil, Nat.le_zero, List.length_eq_zero_iff] at hrest
    refine ⟨fun hne => absurd ?_ hne, fun _ => (hle _ _).trans (h.2 hnil)⟩
    change (second (first s).1 (first s).2).2 = []
    rw [hnil, hrest]
  · have happ := h.1 hnil
    simp only [Steady, happ]
    exact hsecond

theorem deref_append (s u : Bytes) (h : s ≠ []) : deref (s ++ u) = deref s := by
  cases s with
  | nil => exact absurd rfl h
  | cons c s => rfl

theorem readDigits_steady (n : Nat) (s u : Bytes) : Steady (readDigits n) s u := by
  induction s generalizing n with
  | nil => exact steady_nil _ (readDigits_length_le n) u
  | cons c s ih =>
    cases hc : isDigit c with
    | false => exact steady_of_append _ _ (by simp [readDigits, hc])
    | true =>
      have hread (text : Bytes) : readDigits n (c :: text) = readDigits (10 * n + (c.toNat - 48)) text := by
        simp [readDigits, hc]
      rw [Steady, List.cons_append, hread, hread]
      exact ih _

theorem parseSign_steady (s u : Bytes) : Steady parseSign s u := by
  cases s with
  | nil => exact steady_nil _ parseSign_length_le u
  | cons c s =>
    apply steady_of_append
    by_cases hc : c = minus
    · simp [parseSign, hc]
    · simp [parseSign, hc]

theorem skipZero_steady (s u : Bytes) : Steady (fun t => ((), skipZero t)) s u := by
  cases s with
  | nil => exact steady_nil _ skipZero_length_le u
  | cons c s =>
    apply steady_of_append
    by_cases hc : c = 48#8
    · simp [skipZero, hc]
    · simp [skipZero, hc]

theorem leadingDigits_steady (s u : Bytes) : Steady leadingDigits s u := by
  cases s with
  | nil => exact steady_nil _ leadingDigits_length_le u
  | cons c s =>
    by_cases hc : isDigit c = true ∧ c ≠ 48#8
    · have hread (text : Bytes) : leadingDigits (c :: text) = readDigits 0 (c :: text) := if_pos hc
      have hdigits := readDigits_steady 0 (c :: s) u
      rw [Steady, List.cons_append, hread, hread]
      exact hdigits
    · have hnone (text : Bytes) : leadingDigits (c :: text) = (0, c :: text) := if_neg hc
      exact steady_of_append _ _ (by rw [List.cons_append, hnone, hnone, List.cons_append])

theorem parseInteger_steady (s u : Bytes) : Steady parseInteger s u :=
  Steady.andThen (fun _ => leadingDigits) (skipZero_steady s u) (leadingDigits_steady _ u)
    fun _ => leadingDigits_length_le

/-- The digits behind a decimal point with the scale they give. -/
def fraction (n : Nat) (num : Bytes) : (Nat × Int) × Bytes :=
  (((parseFraction n num).1, (parseFraction n num).2.1), (parseFraction n num).2.2)

/-- Behind a lone decimal point the next byte matters. -/
theorem fraction_steady (n : Nat) (s u : Bytes) (h : s ≠ [46#8]) : Steady (fraction n) s u := by
  have hnone (text : Bytes) (hc : ¬(deref text = 46#8 ∧ isDigit (deref text.tail) = true)) :
      fraction n text = ((n, 0), text) := by rw [fraction, parseFraction, if_neg hc]
  have hsome (text : Bytes) (hc : deref text = 46#8 ∧ isDigit (deref text.tail) = true) :
      fraction n text = (((readDigits n text.tail).1, ((readDigits n text.tail).2.length : Int) - text.tail.length),
        (readDigits n text.tail).2) := by rw [fraction, parseFraction, if_pos hc]
  cases s with
  | nil => exact steady_nil (fraction n) (fun t => parseFraction_length_le n t) u
  | cons c s =>
    by_cases hc : c = 46#8 ∧ isDigit (deref s) = true
    · have hne : s ≠ [] := by
        rintro rfl
        exact absurd hc.2 (by decide)
      have hdigits : isDigit (deref (s ++ u)) = true := by rw [deref_append s u hne]; exact hc.2
      have hread := readDigits_steady n s u
      rw [Steady, List.cons_append, hsome (c :: s) hc, hsome (c :: (s ++ u)) ⟨hc.1, hdigits⟩, List.tail_cons,
        List.tail_cons]
      refine ⟨fun hne => ?_, hread.2⟩
      rw [hread.1 hne]
      simp
    · have hc' : ¬(c = 46#8 ∧ isDigit (deref (s ++ u)) = true) := by
        rintro ⟨rfl, hdigit⟩
        cases s with
        | nil => exact h rfl
        | cons d s => exact hc ⟨rfl, hdigit⟩
      exact steady_of_append _ _ (by rw [hnone (c :: s) hc, List.cons_append, hnone (c :: (s ++ u)) hc'])

/-- The sign of an exponent. -/
def exponentSign (num : Bytes) : Int × Bytes := if deref num = 43#8 then (1, num.tail) else parseSign num

theorem exponentSign_length_le (num : Bytes) : (exponentSign num).2.length ≤ num.length := by
  unfold exponentSign
  split
  · simp
  · exact parseSign_length_le num

theorem exponentSign_steady (s u : Bytes) : Steady exponentSign s u := by
  cases s with
  | nil => exact steady_nil _ exponentSign_length_le u
  | cons c s =>
    by_cases hc : c = 43#8
    · exact steady_of_append _ _ (by simp [exponentSign, hc])
    · have hsign (text : Bytes) : exponentSign (c :: text) = parseSign (c :: text) := if_neg hc
      have hsteady := parseSign_steady (c :: s) u
      rw [Steady, List.cons_append, hsign, hsign]
      exact hsteady

theorem parseExponent_steady (s u : Bytes) : Steady parseExponent s u := by
  have hsome (c : U8) (text : Bytes) (hc : c = 101#8 ∨ c = 69#8) : parseExponent (c :: text) =
      (((readDigits 0 (exponentSign text).2).1 : Int) * (exponentSign text).1,
        (readDigits 0 (exponentSign text).2).2) := if_pos hc
  cases s with
  | nil => exact steady_nil _ parseExponent_length_le u
  | cons c s =>
    by_cases hc : c = 101#8 ∨ c = 69#8
    · have hdigits := (readDigits_steady 0 (exponentSign s).2 u).map fun n : Nat => (n : Int) * (exponentSign s).1
      have hboth := Steady.andThen
        (fun sign t => (((readDigits 0 t).1 : Int) * sign, (readDigits 0 t).2)) (exponentSign_steady s u) hdigits
        fun _ => readDigits_length_le 0
      rw [Steady, List.cons_append, hsome c s hc, hsome c (s ++ u) hc]
      exact hboth
    · have hnone (text : Bytes) : parseExponent (c :: text) = (0, c :: text) := if_neg hc
      exact steady_of_append _ _ (by rw [List.cons_append, hnone, hnone]; rfl)

/-- The parts of a number as one reader after the other. -/
def signedInteger (num : Bytes) : (Int × Nat) × Bytes := (((parseSign num).1, (integerPart num).1), (integerPart num).2)

def withFraction (parts : Int × Nat) (num : Bytes) : (Int × Nat × Int) × Bytes :=
  ((parts.1, (fraction parts.2 num).1), (fraction parts.2 num).2)

def withExponent (parts : Int × Nat × Int) (num : Bytes) : Item × Bytes :=
  (numberOf parts.1 parts.2.1 parts.2.2 (parseExponent num).1, (parseExponent num).2)

def decimal (num : Bytes) : (Int × Nat × Int) × Bytes := withFraction (signedInteger num).1 (signedInteger num).2

theorem signedInteger_steady (s u : Bytes) : Steady signedInteger s u :=
  Steady.andThen (fun sign t => ((sign, (parseInteger t).1), (parseInteger t).2)) (parseSign_steady s u)
    ((parseInteger_steady _ u).map _) fun _ => parseInteger_length_le

theorem withFraction_steady (parts : Int × Nat) (s u : Bytes) (h : s ≠ [46#8]) : Steady (withFraction parts) s u :=
  (fraction_steady parts.2 s u h).map fun digits => (parts.1, digits)

theorem decimal_steady (s u : Bytes) (h : (integerPart s).2 ≠ [46#8]) : Steady decimal s u :=
  (signedInteger_steady s u).andThen withFraction (withFraction_steady _ _ u h)
    fun parts => parseFraction_length_le parts.2

theorem parseNumber_eq : parseNumber = fun num => withExponent (decimal num).1 (decimal num).2 := by
  funext num
  exact parseNumber_parts num

theorem withExponent_steady (parts : Int × Nat × Int) (s u : Bytes) : Steady (withExponent parts) s u :=
  (parseExponent_steady s u).map fun exponent => numberOf parts.1 parts.2.1 parts.2.2 exponent

/-- A number is read the same with anything behind it, unless it reaches the end or stops at its point. -/
theorem parseNumber_steady (s u : Bytes) (h : (integerPart s).2 ≠ [46#8]) : Steady parseNumber s u := by
  rw [parseNumber_eq]
  exact (decimal_steady s u h).andThen withExponent (withExponent_steady _ _ u) fun _ => parseExponent_length_le

/-- A number that stops at its decimal point does so with anything behind it. -/
theorem integerPart_append (s u : Bytes) (h : (integerPart s).2 ≠ []) :
    (integerPart (s ++ u)).2 = (integerPart s).2 ++ u := by
  have hinteger := (signedInteger_steady s u).1 h
  exact congrArg Prod.snd hinteger

end Numbers

section Strings

/-- An escape of one letter. -/
theorem unescape_letter (e : U8) (h : e ≠ 117#8) : ∃ piece, ∀ text, unescape (e :: text) = (piece, e :: text) := by
  by_cases h₁ : e = 98#8
  · subst h₁
    exact ⟨[8#8], fun _ => rfl⟩
  by_cases h₂ : e = 102#8
  · subst h₂
    exact ⟨[12#8], fun _ => rfl⟩
  by_cases h₃ : e = 110#8
  · subst h₃
    exact ⟨[10#8], fun _ => rfl⟩
  by_cases h₄ : e = 114#8
  · subst h₄
    exact ⟨[13#8], fun _ => rfl⟩
  by_cases h₅ : e = 116#8
  · subst h₅
    exact ⟨[9#8], fun _ => rfl⟩
  · exact ⟨[e], fun text => by simp [unescape, h, h₁, h₂, h₃, h₄, h₅]⟩

variable (a b c d : U8)

/-- Four digits that ask for nothing more. -/
theorem unicode_single (h : highSurrogate (parseHex4 [a, b, c, d]) = false) :
    ∃ piece, ∀ text, unescapeUnicode (117#8 :: a :: b :: c :: d :: text) = (piece, d :: text) := by
  have hno : ¬(0xD800#32 ≤ parseHex4 [a, b, c, d] ∧ parseHex4 [a, b, c, d] ≤ 0xDBFF#32) := by
    simpa [highSurrogate] using h
  refine ⟨(unescapeUnicode [117#8, a, b, c, d]).1, ?_⟩
  intro text
  have hhex : parseHex4 (a :: b :: c :: d :: text) = parseHex4 [a, b, c, d] := rfl
  simp only [unescapeUnicode, List.tail_cons, hhex, List.drop_succ_cons, List.drop_zero, if_neg hno]
  split_ifs <;> rfl

theorem high_not_low (uc : U32) (h : highSurrogate uc = true) :
    ¬((0xDC00#32 ≤ uc ∧ uc ≤ 0xDFFF#32) ∨ uc = 0#32) ∧ (0xD800#32 ≤ uc ∧ uc ≤ 0xDBFF#32) := by
  simp only [highSurrogate, Bool.and_eq_true, decide_eq_true_eq] at h
  refine ⟨?_, h⟩
  simp only [BitVec.le_def, ← BitVec.toNat_inj, BitVec.toNat_ofNat] at h ⊢
  omega

/-- A first half without a second is dropped. -/
theorem unicode_alone (h : highSurrogate (parseHex4 [a, b, c, d]) = true) (text : Bytes)
    (hnext : ¬(deref text = backslash ∧ deref text.tail = 117#8)) :
    unescapeUnicode (117#8 :: a :: b :: c :: d :: text) = ([], d :: text) := by
  obtain ⟨hlow, hhigh⟩ := high_not_low _ h
  have hhex : parseHex4 (a :: b :: c :: d :: text) = parseHex4 [a, b, c, d] := rfl
  have hcond : deref text ≠ backslash ∨ deref (text.drop 1) ≠ 117#8 := by
    rw [List.drop_one]
    tauto
  simp only [unescapeUnicode, List.tail_cons, hhex, List.drop_succ_cons, List.drop_zero, if_neg hlow, if_pos hhigh]
  exact if_pos hcond

/-- Both halves. -/
theorem unicode_pair (h : highSurrogate (parseHex4 [a, b, c, d]) = true) (a' b' c' d' : U8) :
    ∃ piece, ∀ text, unescapeUnicode (117#8 :: a :: b :: c :: d :: backslash :: 117#8 :: a' :: b' :: c' :: d' :: text) =
      (piece, d' :: text) := by
  obtain ⟨hlow, hhigh⟩ := high_not_low _ h
  refine ⟨(unescapeUnicode [117#8, a, b, c, d, backslash, 117#8, a', b', c', d']).1, ?_⟩
  intro text
  have hhex (text : Bytes) : parseHex4 (a :: b :: c :: d :: text) = parseHex4 [a, b, c, d] := rfl
  have hhex' : parseHex4 (a' :: b' :: c' :: d' :: text) = parseHex4 [a', b', c', d'] := rfl
  simp only [unescapeUnicode, List.tail_cons, hhex, hhex', List.drop_succ_cons, List.drop_zero, if_neg hlow,
    if_pos hhigh, deref_cons, ne_eq, not_true_eq_false, or_self, if_false]
  split_ifs <;> rfl

theorem exists_four (text : Bytes) (h : ¬text.length < 4) : ∃ a b c d rest, text = a :: b :: c :: d :: rest := by
  rcases text with _ | ⟨a, _ | ⟨b, _ | ⟨c, _ | ⟨d, rest⟩⟩⟩⟩
  · exact absurd (by decide) h
  · exact absurd (by simp) h
  · exact absurd (by simp) h
  · exact absurd (by simp) h
  · exact ⟨a, b, c, d, rest, rfl⟩

/-- What can stand behind the first half of a surrogate pair. -/
inductive PairView : Bytes → Prop where
  | empty : PairView []
  | begun : PairView [backslash]
  | short (text : Bytes) (h : text.length < 4) : PairView (backslash :: 117#8 :: text)
  | digits (a b c d : U8) (text : Bytes) : PairView (backslash :: 117#8 :: a :: b :: c :: d :: text)
  | other (x : U8) (text : Bytes) (h : ¬(x = backslash ∧ deref text = 117#8)) (hend : x ≠ backslash ∨ text ≠ []) :
    PairView (x :: text)

theorem pairView (text : Bytes) : PairView text := by
  rcases text with _ | ⟨x, _ | ⟨y, text⟩⟩
  · exact .empty
  · by_cases hx : x = backslash
    · subst hx
      exact .begun
    · exact .other x [] (fun hnext => hx hnext.1) (.inl hx)
  · by_cases hxy : x = backslash ∧ y = 117#8
    · obtain ⟨rfl, rfl⟩ := hxy
      by_cases hshort : text.length < 4
      · exact .short text hshort
      · obtain ⟨a, b, c, d, text, rfl⟩ := exists_four text hshort
        exact .digits a b c d text
    · exact .other x (y :: text) hxy (.inr (by simp))

theorem pairEnd_short (text : Bytes) (h : text.length < 4) : pairEnd (backslash :: 117#8 :: text) = none := by
  rw [pairEnd, if_pos ⟨rfl, rfl⟩, if_pos h]

theorem pairEnd_digits (text : Bytes) : pairEnd (backslash :: 117#8 :: a :: b :: c :: d :: text) = some text := by
  rw [pairEnd, if_pos ⟨rfl, rfl⟩, if_neg (by simp)]
  rfl

theorem pairEnd_other (x : U8) (text : Bytes) (h : ¬(x = backslash ∧ deref text = 117#8))
    (hend : x ≠ backslash ∨ text ≠ []) : pairEnd (x :: text) = some (x :: text) := by
  cases text with
  | nil => exact if_neg (hend.resolve_right (fun hne => hne rfl))
  | cons y text => exact if_neg h

theorem unicode_second_length (h : highSurrogate (parseHex4 [a, b, c, d]) = true) (text : Bytes) :
    (unescapeUnicode (117#8 :: a :: b :: c :: d :: backslash :: 117#8 :: text)).2.length ≤ text.length + 3 - 6 := by
  obtain ⟨hlow, hhigh⟩ := high_not_low _ h
  have hhex : parseHex4 (a :: b :: c :: d :: backslash :: 117#8 :: text) = parseHex4 [a, b, c, d] := rfl
  simp only [unescapeUnicode, List.tail_cons, hhex, List.drop_succ_cons, List.drop_zero, if_neg hlow, if_pos hhigh,
    deref_cons, ne_eq, not_true_eq_false, or_self, if_false]
  split_ifs
  · simp only [List.length_drop]
    omega
  · simp only [List.length_drop]
    omega

/-- The digits of an escape that are there are read in front of the tail. -/
theorem inside_hex (k : Nat) (s tail : Bytes) (h : k ≤ s.length) : Inside tail (hexAccesses k (s ++ tail)) := by
  induction k generalizing s with
  | zero => exact inside_nil
  | succ k ih =>
    cases s with
    | nil => cases h
    | cons c s =>
      have hlen : tail.length < (c :: (s ++ tail)).length := by
        rw [List.length_cons, List.length_append]
        omega
      rw [List.cons_append, hexAccesses, inside_cons, inside_load, List.tail_cons]
      refine ⟨hlen, ?_⟩
      split
      · exact ih s (Nat.le_of_succ_le_succ h)
      · exact inside_nil

/-- An escape with its four digits, and what follows a first half. -/
theorem unicodeAccesses_digits (text tail : Bytes) :
    Inside tail (unicodeAccesses (117#8 :: a :: b :: c :: d :: (text ++ tail))) ↔
      (highSurrogate (parseHex4 [a, b, c, d]) = true →
        text ≠ [] ∧ (deref text = backslash →
          text.tail ≠ [] ∧ (deref text.tail = 117#8 → Inside tail (hexAccesses 4 (text.tail.tail ++ tail))))) := by
  have hfour : Inside tail (hexAccesses 4 (a :: b :: c :: d :: (text ++ tail))) :=
    inside_hex 4 (a :: b :: c :: d :: text) tail (by simp)
  have hhex : parseHex4 (a :: b :: c :: d :: (text ++ tail)) = parseHex4 [a, b, c, d] := rfl
  simp only [unicodeAccesses, List.tail_cons, hhex, List.drop_succ_cons, List.drop_zero, inside_append, hfour, true_and]
  cases highSurrogate (parseHex4 [a, b, c, d]) with
  | false => simp
  | true =>
    rw [if_pos rfl, inside_cons, inside_load]
    simp only [true_implies]
    have hlen (z : U8) (s : Bytes) : tail.length < (z :: (s ++ tail)).length := by
      rw [List.length_cons, List.length_append]
      omega
    cases text with
    | nil => simp
    | cons x text =>
      rw [List.cons_append, deref_cons, deref_cons, List.tail_cons]
      by_cases hback : x = backslash
      · cases text with
        | nil => simp [hback]
        | cons y text =>
          have hx := hlen x (y :: text)
          have hy := hlen y text
          rw [if_pos hback, inside_cons, inside_load, List.drop_succ_cons, List.drop_zero, List.cons_append, deref_cons,
            deref_cons, List.tail_cons]
          by_cases hu : y = 117#8
          · rw [if_pos hu]
            exact ⟨fun h => ⟨by simp, fun _ => ⟨by simp, fun _ => h.2.2⟩⟩, fun h => ⟨hx, hy, (h.2 hback).2 hu⟩⟩
          · rw [if_neg hu]
            exact ⟨fun _ => ⟨by simp, fun _ => ⟨by simp, fun h => absurd h hu⟩⟩, fun _ => ⟨hx, hy, inside_nil⟩⟩
      · rw [if_neg hback]
        exact ⟨fun _ => ⟨by simp, fun h => absurd h hback⟩, fun _ => ⟨hlen x text, inside_nil⟩⟩

/-- What can stand behind a backslash. -/
inductive EscapeView : Bytes → Prop where
  | empty : EscapeView []
  | letter (e : U8) (text : Bytes) (h : e ≠ 117#8) : EscapeView (e :: text)
  | short (text : Bytes) (h : text.length < 4) : EscapeView (117#8 :: text)
  | digits (a b c d : U8) (text : Bytes) : EscapeView (117#8 :: a :: b :: c :: d :: text)

theorem escapeView (text : Bytes) : EscapeView text := by
  cases text with
  | nil => exact .empty
  | cons e text =>
    by_cases he : e = 117#8
    · subst he
      by_cases hshort : text.length < 4
      · exact .short text hshort
      · obtain ⟨a, b, c, d, text, rfl⟩ := exists_four text hshort
        exact .digits a b c d text
    · exact .letter e text he

theorem escapeEnd_letter (e : U8) (text : Bytes) (h : e ≠ 117#8) : escapeEnd (e :: text) = some text := if_pos h

theorem escapeEnd_short (text : Bytes) (h : text.length < 4) : escapeEnd (117#8 :: text) = none := by
  rw [escapeEnd, if_neg (by simp), if_pos h]

theorem escapeEnd_digits (text : Bytes) : escapeEnd (117#8 :: a :: b :: c :: d :: text) =
    if highSurrogate (parseHex4 [a, b, c, d]) then pairEnd text else some text := by
  rw [escapeEnd, if_neg (by simp), if_neg (by simp)]
  rfl

/-- What the parser does with an escape that is all there. -/
def EscapeRead (text rest : Bytes) : Prop :=
  rest.length < text.length ∧ (∃ piece, ∀ tail, ∃ x, unescape (text ++ tail) = (piece, x :: (rest ++ tail))) ∧
    ∀ tail, Inside tail (unescapeAccesses (text ++ tail))

theorem inside_unescape (text tail : Bytes) : Inside tail (unescapeAccesses (117#8 :: (text ++ tail))) ↔
    Inside tail (unicodeAccesses (117#8 :: (text ++ tail))) := by
  have hlen : tail.length < (117#8 :: (text ++ tail)).length := by
    rw [List.length_cons, List.length_append]
    omega
  rw [unescapeAccesses, deref_cons, if_pos rfl, inside_cons, inside_load]
  exact and_iff_right hlen

theorem pairEnd_some (h : highSurrogate (parseHex4 [a, b, c, d]) = true) (text rest : Bytes)
    (hend : pairEnd text = some rest) : EscapeRead (117#8 :: a :: b :: c :: d :: text) rest := by
  cases pairView text with
  | empty => cases hend
  | begun => cases hend
  | short text hshort =>
    rw [pairEnd_short text hshort] at hend
    cases hend
  | digits a' b' c' d' text =>
    rw [pairEnd_digits] at hend
    obtain rfl := Option.some.inj hend
    obtain ⟨piece, hpiece⟩ := unicode_pair a b c d h a' b' c' d'
    refine ⟨by simp only [List.length_cons]; omega, ⟨piece, fun tail => ⟨d', hpiece (text ++ tail)⟩⟩, fun tail => ?_⟩
    have hdigits : Inside tail (hexAccesses 4 (a' :: b' :: c' :: d' :: (text ++ tail))) :=
      inside_hex 4 (a' :: b' :: c' :: d' :: text) tail (by simp)
    exact (inside_unescape _ tail).mpr ((unicodeAccesses_digits a b c d _ tail).mpr
      fun _ => ⟨by simp, fun _ => ⟨by simp, fun _ => hdigits⟩⟩)
  | other x text hnext hne =>
    rw [pairEnd_other x text hnext hne] at hend
    obtain rfl := Option.some.inj hend
    have hletter (tail : Bytes) (hx : x = backslash) : deref (text ++ tail) ≠ 117#8 := by
      -- behind a backslash there is a byte of the text, and it is no `u`
      rw [deref_append text tail (hne.resolve_left (fun hno => hno hx))]
      exact fun hu => hnext ⟨hx, hu⟩
    refine ⟨by simp only [List.length_cons]; omega, ⟨[], fun tail => ⟨d, unicode_alone a b c d h _ ?_⟩⟩, fun tail => ?_⟩
    · rintro ⟨hx, hbyte⟩
      exact hletter tail hx hbyte
    · refine (inside_unescape _ tail).mpr ((unicodeAccesses_digits a b c d _ tail).mpr
        fun _ => ⟨by simp, fun hx => ⟨hne.resolve_left fun hno => hno hx, fun hu => ?_⟩⟩)
      exact absurd ⟨hx, hu⟩ hnext

/-- An escape that is all there is read the same with anything behind it. -/
theorem escapeEnd_some (text rest : Bytes) (h : escapeEnd text = some rest) : EscapeRead text rest := by
  cases escapeView text with
  | empty => cases h
  | letter e text he =>
    rw [escapeEnd_letter e text he] at h
    obtain rfl := Option.some.inj h
    obtain ⟨piece, hpiece⟩ := unescape_letter e he
    refine ⟨Nat.lt_succ_self _, ⟨piece, fun tail => ⟨e, hpiece (text ++ tail)⟩⟩, fun tail => ?_⟩
    rw [List.cons_append, unescapeAccesses, deref_cons, if_neg he]
    simp
  | short text hshort =>
    rw [escapeEnd_short text hshort] at h
    cases h
  | digits a b c d text =>
    rw [escapeEnd_digits] at h
    cases hhigh : highSurrogate (parseHex4 [a, b, c, d]) with
    | false =>
      rw [hhigh, if_neg (by simp)] at h
      obtain rfl := Option.some.inj h
      obtain ⟨piece, hpiece⟩ := unicode_single a b c d hhigh
      refine ⟨by simp only [List.length_cons]; omega, ⟨piece, fun tail => ⟨d, hpiece (text ++ tail)⟩⟩, fun tail => ?_⟩
      refine (inside_unescape _ tail).mpr ((unicodeAccesses_digits a b c d _ tail).mpr fun hno => ?_)
      rw [hhigh] at hno
      cases hno
    | true =>
      rw [hhigh, if_pos rfl] at h
      exact pairEnd_some a b c d hhigh text rest h

/-- A `\u` escape takes at least its four digits. -/
theorem unescapeUnicode_length (ptr : Bytes) : (unescapeUnicode ptr).2.length ≤ ptr.length - 4 := by
  unfold unescapeUnicode
  dsimp only
  repeat' split
  all_goals simp only [List.length_drop]
  all_goals omega

/-- An escape that is cut off: the parser looks behind the text, or goes on there. -/
theorem escapeEnd_none (text tail : Bytes) (h : escapeEnd text = none) :
    ¬Inside tail (unescapeAccesses (text ++ tail)) ∨ (unescape (text ++ tail)).2.tail.length ≤ tail.length := by
  have hunicode (s : Bytes) : unescape (117#8 :: s) = unescapeUnicode (117#8 :: s) := rfl
  cases escapeView text with
  | empty =>
    refine .inl fun hinside => ?_
    rw [List.nil_append, unescapeAccesses, inside_cons, inside_load] at hinside
    exact Nat.lt_irrefl _ hinside.1
  | letter e text he =>
    rw [escapeEnd_letter e text he] at h
    cases h
  | short text hshort =>
    refine .inr ?_
    have hlen := unescapeUnicode_length (117#8 :: (text ++ tail))
    rw [List.length_cons, List.length_append] at hlen
    rw [List.cons_append, hunicode, List.length_tail]
    omega
  | digits a b c d text =>
    rw [escapeEnd_digits] at h
    cases hhigh : highSurrogate (parseHex4 [a, b, c, d]) with
    | false =>
      rw [hhigh, if_neg (by simp)] at h
      cases h
    | true =>
      rw [hhigh, if_pos rfl] at h
      have hinside (hacc : Inside tail (unescapeAccesses (117#8 :: a :: b :: c :: d :: (text ++ tail)))) :=
        (unicodeAccesses_digits a b c d text tail).mp ((inside_unescape (a :: b :: c :: d :: text) tail).mp hacc) hhigh
      cases pairView text with
      | empty => exact .inl fun hacc => (hinside hacc).1 rfl
      | begun => exact .inl fun hacc => ((hinside hacc).2 rfl).1 rfl
      | short text hshort =>
        refine .inr ?_
        have hlen := unicode_second_length a b c d hhigh (text ++ tail)
        rw [List.length_append] at hlen
        simp only [List.cons_append]
        rw [hunicode, List.length_tail]
        omega
      | digits a' b' c' d' text =>
        rw [pairEnd_digits] at h
        cases h
      | other x text hnext hne =>
        rw [pairEnd_other x text hnext hne] at h
        cases h

/-- What the copying loop does, with anything behind the text. -/
def Copies (text : Bytes) : Option Bytes → Prop
  | some rest => rest ≠ [] ∧ rest.length ≤ text.length ∧
      (∃ out, ∀ tail, stringLoop (text ++ tail) = (out, rest ++ tail)) ∧
      ∀ tail k, (text ++ tail).length < k → Inside tail (copyAccesses k (text ++ tail))
  | none => ∀ tail k, (text ++ tail).length < k → ¬Inside tail (copyAccesses k (text ++ tail))

/-- One turn of the loop, whatever it takes. -/
theorem Copies.turn {text rest : Bytes} {p : Option Bytes} (piece : Bytes) (hlen : rest.length < text.length)
    (hturn : ∀ tail, stringLoop (text ++ tail) =
      (piece ++ (stringLoop (rest ++ tail)).1, (stringLoop (rest ++ tail)).2))
    (hacc : ∀ tail k, Inside tail (copyAccesses (k + 1) (text ++ tail)) ↔ Inside tail (copyAccesses k (rest ++ tail)))
    (h : Copies rest p) : Copies text p := by
  have hfuel (tail : Bytes) (k : Nat) (hk : (text ++ tail).length < k) :
      ∃ k', k = k' + 1 ∧ (rest ++ tail).length < k' := by
    rw [List.length_append] at hk
    exact ⟨k - 1, by omega, by rw [List.length_append]; omega⟩
  cases p with
  | none =>
    intro tail k hk hinside
    obtain ⟨k, rfl, hrest⟩ := hfuel tail k hk
    exact h tail k hrest ((hacc tail k).mp hinside)
  | some after =>
    obtain ⟨hne, hle, ⟨out, hout⟩, hinside⟩ := h
    refine ⟨hne, hle.trans hlen.le, ⟨piece ++ out, fun tail => by rw [hturn, hout]⟩, fun tail k hk => ?_⟩
    obtain ⟨k, rfl, hrest⟩ := hfuel tail k hk
    exact (hacc tail k).mpr (hinside tail k hrest)

theorem copyEnd_spec (fuel : Nat) (text : Bytes) (h : text.length < fuel) : Copies text (copyEnd fuel text) := by
  induction fuel generalizing text with
  | zero => cases h
  | succ fuel ih =>
    have hfuel (s : Bytes) (k : Nat) (hk : s.length < k) : ∃ k', k = k' + 1 := ⟨k - 1, by omega⟩
    cases text with
    | nil =>
      intro tail k hk hinside
      obtain ⟨k, rfl⟩ := hfuel _ k hk
      rw [List.nil_append, copyAccesses, inside_cons, inside_load] at hinside
      exact Nat.lt_irrefl _ hinside.1
    | cons c text =>
      rw [List.length_cons] at h
      have hfirst (tail : Bytes) : tail.length < (c :: (text ++ tail)).length := by
        rw [List.length_cons, List.length_append]
        omega
      rw [copyEnd]
      by_cases hstop : c = quote ∨ c = 0#8
      · rw [if_pos hstop]
        refine ⟨by simp, Nat.le_refl _, ⟨[], fun tail => ?_⟩, fun tail k hk => ?_⟩
        · rw [List.cons_append, stringLoop_eq, if_pos hstop]
        · obtain ⟨k, rfl⟩ := hfuel _ k hk
          rw [List.cons_append, copyAccesses, deref_cons, if_pos hstop, inside_cons, inside_load]
          exact ⟨hfirst tail, inside_nil⟩
      rw [if_neg hstop]
      by_cases hback : c = backslash
      · have hacc (tail : Bytes) (k : Nat) : Inside tail (copyAccesses (k + 1) (c :: text ++ tail)) ↔
            Inside tail (unescapeAccesses (text ++ tail)) ∧
              Inside tail (copyAccesses k (unescape (text ++ tail)).2.tail) := by
          rw [List.cons_append, copyAccesses, deref_cons, if_neg hstop, if_neg (not_not_intro hback), inside_cons,
            inside_load, inside_append, List.tail_cons]
          exact and_iff_right (hfirst tail)
        rw [if_neg (not_not_intro hback)]
        cases hescape : escapeEnd text with
        | none =>
          intro tail k hk hinside
          obtain ⟨k, rfl⟩ := hfuel _ k hk
          obtain ⟨hescaped, hnext⟩ := (hacc tail k).mp hinside
          have hpast := (escapeEnd_none text tail hescape).resolve_left (not_not_intro hescaped)
          -- the next turn begins behind the text
          rw [List.cons_append, List.length_cons] at hk
          obtain ⟨k, rfl⟩ := hfuel (text ++ tail) k (by omega)
          rw [copyAccesses, inside_cons, inside_load] at hnext
          omega
        | some rest =>
          obtain ⟨hlen, ⟨piece, hpiece⟩, hescaped⟩ := escapeEnd_some text rest hescape
          refine Copies.turn piece (by rw [List.length_cons]; omega) (fun tail => ?_) (fun tail k => ?_)
            (ih rest (by omega))
          · obtain ⟨x, hx⟩ := hpiece tail
            rw [List.cons_append, stringLoop_eq, if_neg hstop, if_neg (not_not_intro hback), hx, List.tail_cons]
          · obtain ⟨x, hx⟩ := hpiece tail
            rw [hacc, hx, List.tail_cons]
            exact and_iff_right (hescaped tail)
      · rw [if_pos hback]
        refine Copies.turn [c] (Nat.lt_succ_self _) (fun tail => ?_) (fun tail k => ?_) (ih text (by omega))
        · rw [List.cons_append, stringLoop_eq, if_neg hstop, if_pos hback, ← List.singleton_append]
        · rw [List.cons_append, copyAccesses, deref_cons, if_neg hstop, if_pos hback, inside_cons, inside_load,
            List.tail_cons]
          exact and_iff_right (hfirst tail)

/-- What the counting loop does in front of a tail. -/
def Counts (tail : Bytes) (size : Nat) (accesses : List Access) : Option Nat → Prop
  | some n => size = n ∧ Inside tail accesses
  | none => ¬Inside tail accesses

theorem Counts.succ {tail : Bytes} {size : Nat} {accesses : List Access} {p : Option Nat}
    (h : Counts tail size accesses p) : Counts tail (size + 1) accesses (p.map (· + 1)) := by
  cases p with
  | none => exact h
  | some n => exact ⟨congrArg (· + 1) h.1, h.2⟩

theorem sizeOf_spec (fuel : Nat) (text : Bytes) (h : text.length < fuel) (tail : Bytes) (k : Nat)
    (hk : (text ++ tail).length < k) :
    Counts tail (stringSize k (text ++ tail)) (sizeAccesses k (text ++ tail)) (sizeOf fuel text) := by
  induction fuel generalizing text k with
  | zero => cases h
  | succ fuel ih =>
    obtain ⟨k, rfl⟩ : ∃ k', k = k' + 1 := ⟨k - 1, by omega⟩
    cases text with
    | nil =>
      intro hinside
      rw [List.nil_append, sizeAccesses, inside_cons, inside_load] at hinside
      exact Nat.lt_irrefl _ hinside.1
    | cons c text =>
      rw [List.length_cons] at h
      rw [List.cons_append, List.length_cons, List.length_append] at hk
      have hfirst (accesses : List Access) :
          Inside tail (.load (c :: (text ++ tail)) :: accesses) ↔ Inside tail accesses := by
        rw [inside_cons, inside_load, List.length_cons, List.length_append]
        exact and_iff_right (by omega)
      have hload {size : Nat} {accesses : List Access} {p : Option Nat} (hcounts : Counts tail size accesses p) :
          Counts tail size (.load (c :: (text ++ tail)) :: accesses) p := by
        cases p with
        | none => exact fun hinside => hcounts ((hfirst accesses).mp hinside)
        | some n => exact ⟨hcounts.1, (hfirst accesses).mpr hcounts.2⟩
      rw [sizeOf, List.cons_append, sizeAccesses, stringSize, deref_cons, List.tail_cons]
      apply hload
      by_cases hstop : c = quote ∨ c = 0#8
      · rw [if_pos hstop, if_pos hstop, if_pos hstop]
        exact ⟨rfl, inside_nil⟩
      rw [if_neg hstop, if_neg hstop, if_neg hstop]
      by_cases hback : c = backslash
      · rw [if_neg (not_not_intro hback), if_pos hback, if_pos hback]
        cases text with
        | nil =>
          -- the character that is stepped over lies behind the text
          have hnone : sizeOf fuel [] = none := by cases fuel <;> rfl
          obtain ⟨k, rfl⟩ : ∃ k', k = k' + 1 := ⟨k - 1, by omega⟩
          rw [List.tail_nil, hnone, List.nil_append]
          intro hinside
          rw [sizeAccesses, inside_cons, inside_load, List.length_tail] at hinside
          omega
        | cons d text =>
          rw [List.length_cons] at h hk
          exact (ih text (by omega) k (by rw [List.length_append]; omega)).succ
      · rw [if_pos hback, if_neg hback, if_neg hback]
        exact (ih text (by omega) k (by rw [List.length_append]; omega)).succ

end Strings

end DataReceiveRelay.FileScan
