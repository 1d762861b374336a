import DataReceiveRelay.Json

/-!
# The parser without its bounds

The readers of `Json` carry a bound on the nesting and on the length of each
list. Every reader takes at least one byte when it succeeds, so bounds beyond
the length of the text make no difference. `value` and `elements` are the
readers with bounds that suffice; their equations are those of the source.
-/

namespace DataReceiveRelay.ParseFuel

open Words Json

/-- A successful read takes at least one byte. -/
def Consumes {α : Type} (read : Bytes → Option (α × Bytes)) : Prop :=
  ∀ text a rest, read text = some (a, rest) → rest.length < text.length

section Lengths

theorem skip_length_le (text : Bytes) : (skip text).length ≤ text.length :=
  (List.dropWhile_sublist _).length_le

theorem readDigits_length_le (n : Nat) (num : Bytes) : (readDigits n num).2.length ≤ num.length := by
  induction num generalizing n with
  | nil => rfl
  | cons c num ih =>
    rw [readDigits]
    split
    · exact Nat.le_succ_of_le (ih _)
    · rfl

theorem parseSign_length_le (num : Bytes) : (parseSign num).2.length ≤ num.length := by
  unfold parseSign
  split
  · simp
  · rfl

/-- The leading zero of a number, and the digits behind it. -/
def skipZero (num : Bytes) : Bytes := if deref num = 48#8 then num.tail else num

def leadingDigits (num : Bytes) : Nat × Bytes :=
  if isDigit (deref num) ∧ deref num ≠ 48#8 then readDigits 0 num else (0, num)

theorem parseInteger_eq (num : Bytes) : parseInteger num = leadingDigits (skipZero num) := rfl

theorem skipZero_length_le (num : Bytes) : (skipZero num).length ≤ num.length := by
  unfold skipZero
  split
  · simp
  · rfl

theorem leadingDigits_length_le (num : Bytes) : (leadingDigits num).2.length ≤ num.length := by
  unfold leadingDigits
  split
  · exact readDigits_length_le 0 num
  · rfl

theorem parseInteger_length_le (num : Bytes) : (parseInteger num).2.length ≤ num.length :=
  (leadingDigits_length_le _).trans (skipZero_length_le num)

theorem parseFraction_length_le (n : Nat) (num : Bytes) : (parseFraction n num).2.2.length ≤ num.length := by
  have htail : num.tail.length ≤ num.length := by simp
  unfold parseFraction
  split
  · exact (readDigits_length_le n num.tail).trans htail
  · rfl

theorem parseExponent_length_le (num : Bytes) : (parseExponent num).2.length ≤ num.length := by
  have htail (s : Bytes) : s.tail.length ≤ s.length := by simp
  unfold parseExponent
  split
  · dsimp only
    refine (readDigits_length_le 0 _).trans (le_trans ?_ (htail num))
    split
    · exact htail num.tail
    · exact parseSign_length_le num.tail
  · rfl

/-- A leading digit is taken. -/
theorem parseInteger_length_lt (num : Bytes) (h : isDigit (deref num) = true) :
    (parseInteger num).2.length < num.length := by
  cases num with
  | nil => exact absurd h (by decide)
  | cons c num =>
    rw [parseInteger_eq, List.length_cons, Nat.lt_succ_iff]
    by_cases hz : c = 48#8
    · have hskip : skipZero (c :: num) = num := if_pos hz
      rw [hskip]
      exact leadingDigits_length_le num
    · have hskip : skipZero (c :: num) = c :: num := if_neg hz
      have hread : leadingDigits (c :: num) = readDigits 0 (c :: num) := if_pos ⟨h, hz⟩
      rw [deref_cons] at h
      rw [hskip, hread, readDigits, if_pos h]
      exact readDigits_length_le _ num

/-- A number in its parts: the digits in front of the point, with those behind it, and the value they give. -/
def integerPart (num : Bytes) : Nat × Bytes := parseInteger (parseSign num).2

def fractionPart (num : Bytes) : Nat × Int × Bytes := parseFraction (integerPart num).1 (integerPart num).2

def numberOf (sign : Int) (n : Nat) (scale exponent : Int) : Item :=
  let d : ℚ := sign * n * 10 ^ (scale + exponent)
  { type := .number, valuedouble := d, valueint := doubleToInt d }

theorem parseNumber_parts (num : Bytes) :
    parseNumber num = (numberOf (parseSign num).1 (fractionPart num).1 (fractionPart num).2.1
      (parseExponent (fractionPart num).2.2).1, (parseExponent (fractionPart num).2.2).2) := by
  simp only [parseNumber, numberOf, fractionPart, integerPart]

theorem parseNumber_rest (num : Bytes) : (parseNumber num).2 = (parseExponent (fractionPart num).2.2).2 := by
  rw [parseNumber_parts]

theorem parseNumber_length_lt (num : Bytes) (h : deref num = minus ∨ isDigit (deref num) = true) :
    (parseNumber num).2.length < num.length := by
  have hlater := (parseExponent_length_le (fractionPart num).2.2).trans
    (parseFraction_length_le (integerPart num).1 (integerPart num).2)
  rw [← parseNumber_rest] at hlater
  refine lt_of_le_of_lt hlater ?_
  rw [integerPart]
  by_cases hminus : deref num = minus
  · cases num with
    | nil => exact absurd hminus (by decide)
    | cons c num =>
      have hsign : parseSign (c :: num) = (-1, num) := if_pos hminus
      rw [hsign]
      exact Nat.lt_succ_of_le (parseInteger_length_le num)
  · have hsign : parseSign num = (1, num) := if_neg hminus
    rw [hsign]
    exact parseInteger_length_lt num (h.resolve_left hminus)

theorem unescapeUnicode_length_le (ptr : Bytes) : (unescapeUnicode ptr).2.length ≤ ptr.length := by
  unfold unescapeUnicode
  dsimp only
  repeat' split
  all_goals simp only [List.length_drop]
  all_goals omega

theorem unescape_length_le (ptr : Bytes) : (unescape ptr).2.length ≤ ptr.length := by
  unfold unescape
  repeat' split
  all_goals first | exact unescapeUnicode_length_le ptr | exact Nat.le_refl _

theorem parseStringLoop_length_le (fuel : Nat) (ptr : Bytes) : (parseStringLoop fuel ptr).2.length ≤ ptr.length := by
  induction fuel generalizing ptr with
  | zero => rfl
  | succ fuel ih =>
    have htail (s : Bytes) : s.tail.length ≤ s.length := by simp
    rw [parseStringLoop]
    split
    · rfl
    · split
      · exact (ih ptr.tail).trans (htail ptr)
      · exact (ih _).trans ((htail _).trans ((unescape_length_le ptr.tail).trans (htail ptr)))

/-- The closing quote is taken, a zero byte is not. -/
def closeQuote (ptr : Bytes) : Bytes := if deref ptr = quote then ptr.tail else ptr

theorem closeQuote_length_le (ptr : Bytes) : (closeQuote ptr).length ≤ ptr.length := by
  unfold closeQuote
  split
  · simp
  · rfl

theorem parseString_quote (str : Bytes) :
    parseString (quote :: str) = some (cString (parseStringLoop (str.length + 1) str).1,
      closeQuote (parseStringLoop (str.length + 1) str).2) := rfl

theorem parseString_consumes : Consumes parseString := by
  intro str out rest h
  cases str with
  | nil => cases h
  | cons c str =>
    by_cases hc : c = quote
    · rw [hc, parseString_quote] at h
      obtain ⟨-, rfl⟩ := Prod.mk.inj (Option.some.inj h)
      exact Nat.lt_succ_of_le ((closeQuote_length_le _).trans (parseStringLoop_length_le _ str))
    · have hnone : parseString (c :: str) = none := if_pos hc
      rw [hnone] at h
      cases h

end Lengths

section Brackets

/-- Arrays and objects differ in their brackets and in what one element is. -/
def bracketed (element : Bytes → Option (Item × Bytes)) (close : U8) (type : Kind) (text : Bytes) :
    Option (Item × Bytes) :=
  let value := skip text.tail
  if deref value = close then some ({ type := type }, value.tail)
  else
    match parseElements element (value.length + 1) value with
    | none => none
    | some (child, value) => if deref value = close then some ({ type := type, child := child }, value.tail) else none

theorem parseArray_bracketed (read : Bytes → Option (Item × Bytes)) :
    parseArray read = bracketed read closeBracket .array := rfl

theorem parseObject_bracketed (read : Bytes → Option (Item × Bytes)) :
    parseObject read = bracketed (parseMember read) closeBrace .object := rfl

variable {element : Bytes → Option (Item × Bytes)}

theorem parseElements_consumes (h : Consumes element) (fuel : Nat) : Consumes (parseElements element fuel) := by
  induction fuel with
  | zero =>
    intro text items rest hread
    cases hread
  | succ fuel ih =>
    intro text items rest hread
    rw [parseElements] at hread
    cases hfirst : element text with
    | none => simp [hfirst] at hread
    | some first =>
      have hlt := h text first.1 first.2 hfirst
      have hskip := skip_length_le first.2
      simp only [hfirst] at hread
      by_cases hcomma : deref (skip first.2) = comma
      · rw [if_pos hcomma] at hread
        cases hmore : parseElements element fuel (skip (skip first.2).tail) with
        | none => simp [hmore] at hread
        | some more =>
          simp only [hmore, Option.some.injEq, Prod.mk.injEq] at hread
          have hrest := ih _ more.1 more.2 hmore
          have hnext := skip_length_le (skip first.2).tail
          rw [List.length_tail] at hnext
          rw [← hread.2]
          omega
      · rw [if_neg hcomma] at hread
        simp only [Option.some.injEq, Prod.mk.injEq] at hread
        rw [← hread.2]
        omega

theorem bracketed_consumes (h : Consumes element) (close : U8) (type : Kind) (hclose : close ≠ 0#8) :
    Consumes (bracketed element close type) := by
  intro text item rest hread
  have hskip := skip_length_le text.tail
  rw [List.length_tail] at hskip
  unfold bracketed at hread
  dsimp only at hread
  by_cases hempty : deref (skip text.tail) = close
  · rw [if_pos hempty] at hread
    obtain ⟨-, rfl⟩ := Prod.mk.inj (Option.some.inj hread)
    cases hvalue : skip text.tail with
    | nil => exact absurd (by rw [← hempty, hvalue]; rfl) hclose
    | cons c value =>
      rw [hvalue, List.length_cons] at hskip
      rw [List.tail_cons]
      omega
  · rw [if_neg hempty] at hread
    cases hchild : parseElements element ((skip text.tail).length + 1) (skip text.tail) with
    | none => simp [hchild] at hread
    | some child =>
      have hlt := parseElements_consumes h _ _ child.1 child.2 hchild
      simp only [hchild] at hread
      split at hread
      · simp only [Option.some.injEq, Prod.mk.injEq] at hread
        rw [← hread.2, List.length_tail]
        omega
      · cases hread

theorem parseMember_consumes {read : Bytes → Option (Item × Bytes)} (h : Consumes read) :
    Consumes (parseMember read) := by
  intro text item rest hread
  rw [parseMember] at hread
  cases hkey : parseString text with
  | none => simp [hkey] at hread
  | some key =>
    have hlt := parseString_consumes text key.1 key.2 hkey
    have hskip := skip_length_le key.2
    have hnext := skip_length_le (skip key.2).tail
    rw [List.length_tail] at hnext
    simp only [hkey] at hread
    split at hread
    · cases hread
    · cases hvalue : read (skip (skip key.2).tail) with
      | none => simp [hvalue] at hread
      | some child =>
        have hchild := h _ child.1 child.2 hvalue
        simp only [hvalue, Option.some.injEq, Prod.mk.injEq] at hread
        rw [← hread.2]
        omega

theorem isPrefixOf_length (word value : Bytes) (h : word.isPrefixOf value = true) : word.length ≤ value.length :=
  (List.isPrefixOf_iff_prefix.mp h).length_le

/-- The values without values in them. -/
def scalar (text : Bytes) : Option (Item × Bytes) :=
  if (chars ['n', 'u', 'l', 'l']).isPrefixOf text then some ({ type := .null }, text.drop 4)
  else if (chars ['f', 'a', 'l', 's', 'e']).isPrefixOf text then some ({ type := .false }, text.drop 5)
  else if (chars ['t', 'r', 'u', 'e']).isPrefixOf text then some ({ type := .true, valueint := 1#32 }, text.drop 4)
  else if deref text = quote then
    (parseString text).map fun (s, rest) => ({ type := .string, valuestring := some s }, rest)
  else if deref text = minus ∨ isDigit (deref text) then some (parseNumber text)
  else none

/-- One value, given the reader of the values in it. The first byte decides between an array, an object and a
scalar. -/
def valueStep (read : Bytes → Option (Item × Bytes)) (text : Bytes) : Option (Item × Bytes) :=
  if deref text = openBracket then bracketed read closeBracket .array text
  else if deref text = openBrace then bracketed (parseMember read) closeBrace .object text
  else scalar text

theorem parseValue_succ (depth : Nat) (text : Bytes) :
    parseValue (depth + 1) text = valueStep (parseValue depth) text := by
  unfold valueStep
  by_cases hbracket : deref text = openBracket
  · rw [if_pos hbracket, parseValue_noKeyword depth text (by rw [NoKeyword, hbracket]; decide), hbracket,
      ← parseArray_bracketed]
    rfl
  · by_cases hbrace : deref text = openBrace
    · rw [if_neg hbracket, if_pos hbrace, parseValue_noKeyword depth text (by rw [NoKeyword, hbrace]; decide), hbrace,
        ← parseObject_bracketed]
      rfl
    · rw [if_neg hbracket, if_neg hbrace, parseValue, if_neg hbracket, if_neg hbrace]
      rfl

theorem scalar_consumes : Consumes scalar := by
  have hdrop (word text : Bytes) (n : Nat) (hn : 0 < n) (hword : word.length = n) (h : word.isPrefixOf text = true) :
      (text.drop n).length < text.length := by
    have hle := isPrefixOf_length word text h
    rw [List.length_drop]
    omega
  intro text item rest hread
  unfold scalar at hread
  split at hread
  · next h =>
    obtain ⟨-, rfl⟩ := Prod.mk.inj (Option.some.inj hread)
    exact hdrop _ text 4 (by decide) (by decide) h
  split at hread
  · next h =>
    obtain ⟨-, rfl⟩ := Prod.mk.inj (Option.some.inj hread)
    exact hdrop _ text 5 (by decide) (by decide) h
  split at hread
  · next h =>
    obtain ⟨-, rfl⟩ := Prod.mk.inj (Option.some.inj hread)
    exact hdrop _ text 4 (by decide) (by decide) h
  split at hread
  · obtain ⟨string, hstring, heq⟩ := Option.map_eq_some_iff.mp hread
    obtain ⟨-, rfl⟩ := Prod.mk.inj heq
    exact parseString_consumes text string.1 string.2 hstring
  split at hread
  · next h =>
    have hrest : (parseNumber text).2 = rest := congrArg Prod.snd (Option.some.inj hread)
    rw [← hrest]
    exact parseNumber_length_lt text h
  · cases hread

theorem parseValue_consumes (depth : Nat) : Consumes (parseValue depth) := by
  induction depth with
  | zero =>
    intro text item rest hread
    cases hread
  | succ depth ih =>
    intro text item rest hread
    rw [parseValue_succ, valueStep] at hread
    split at hread
    · exact bracketed_consumes ih closeBracket .array (by decide) text item rest hread
    split at hread
    · exact bracketed_consumes (parseMember_consumes ih) closeBrace .object (by decide) text item rest hread
    · exact scalar_consumes text item rest hread

end Brackets

section Bounds

variable {element element' : Bytes → Option (Item × Bytes)}

/-- Readers that agree on shorter texts agree on lists, whatever the bounds. -/
theorem parseElements_congr (n : Nat) (hsame : ∀ text, text.length < n → element text = element' text)
    (hc : Consumes element) (text : Bytes) (hn : text.length < n) (fuel fuel' : Nat) (hf : text.length < fuel)
    (hf' : text.length < fuel') : parseElements element fuel text = parseElements element' fuel' text := by
  induction fuel generalizing text fuel' with
  | zero => cases hf
  | succ fuel ih =>
    obtain ⟨fuel', rfl⟩ : ∃ f, fuel' = f + 1 := ⟨fuel' - 1, by omega⟩
    rw [parseElements, parseElements, ← hsame text hn]
    cases hfirst : element text with
    | none => rfl
    | some first =>
      have hlt := hc text first.1 first.2 hfirst
      have hskip := skip_length_le first.2
      have hnext := skip_length_le (skip first.2).tail
      rw [List.length_tail] at hnext
      have hrest := ih (skip (skip first.2).tail) (by omega) fuel' (by omega) (by omega)
      simp only [hrest]

theorem bracketed_congr (text : Bytes) (hne : text ≠ [])
    (hsame : ∀ text', text'.length < text.length → element text' = element' text') (hc : Consumes element)
    (close : U8) (type : Kind) : bracketed element close type text = bracketed element' close type text := by
  have hlen := List.length_pos_iff.mpr hne
  have hskip := skip_length_le text.tail
  rw [List.length_tail] at hskip
  have helements := parseElements_congr text.length hsame hc (skip text.tail) (by omega)
    ((skip text.tail).length + 1) ((skip text.tail).length + 1) (Nat.lt_succ_self _) (Nat.lt_succ_self _)
  simp only [bracketed, helements]

theorem parseMember_congr {read read' : Bytes → Option (Item × Bytes)} (text : Bytes)
    (hsame : ∀ text', text'.length < text.length → read text' = read' text') :
    parseMember read text = parseMember read' text := by
  rw [parseMember, parseMember]
  cases hkey : parseString text with
  | none => rfl
  | some key =>
    have hlt := parseString_consumes text key.1 key.2 hkey
    have hskip := skip_length_le key.2
    have hnext := skip_length_le (skip key.2).tail
    rw [List.length_tail] at hnext
    simp only [hsame (skip (skip key.2).tail) (by omega)]

theorem ne_nil_of_deref (text : Bytes) (c : U8) (h : deref text = c) (hc : c ≠ 0#8) : text ≠ [] := by
  rintro rfl
  exact hc h.symm

theorem valueStep_congr {read read' : Bytes → Option (Item × Bytes)} (text : Bytes)
    (hsame : ∀ text', text'.length < text.length → read text' = read' text') (hc : Consumes read) :
    valueStep read text = valueStep read' text := by
  unfold valueStep
  by_cases hbracket : deref text = openBracket
  · rw [if_pos hbracket, if_pos hbracket]
    exact bracketed_congr text (ne_nil_of_deref text _ hbracket (by decide)) hsame hc _ _
  · by_cases hbrace : deref text = openBrace
    · rw [if_neg hbracket, if_neg hbracket, if_pos hbrace, if_pos hbrace]
      refine bracketed_congr text (ne_nil_of_deref text _ hbrace (by decide)) ?_ (parseMember_consumes hc) _ _
      intro text' h
      exact parseMember_congr text' fun text'' h' => hsame text'' (by omega)
    · rw [if_neg hbracket, if_neg hbracket, if_neg hbrace, if_neg hbrace]

/-- A nesting bound beyond the length of the text is as good as any other. -/
theorem parseValue_depth (n : Nat) (text : Bytes) (hn : text.length < n) (depth depth' : Nat) (hd : text.length < depth)
    (hd' : text.length < depth') : parseValue depth text = parseValue depth' text := by
  induction n generalizing text depth depth' with
  | zero => cases hn
  | succ n ih =>
    obtain ⟨depth, rfl⟩ : ∃ d, depth = d + 1 := ⟨depth - 1, by omega⟩
    obtain ⟨depth', rfl⟩ : ∃ d, depth' = d + 1 := ⟨depth' - 1, by omega⟩
    rw [parseValue_succ, parseValue_succ]
    apply valueStep_congr text _ (parseValue_consumes depth)
    intro text' h
    exact ih text' (by omega) depth depth' (by omega) (by omega)

theorem parseStringLoop_succ (fuel : Nat) (ptr : Bytes) :
    parseStringLoop (fuel + 1) ptr =
      if deref ptr = quote ∨ deref ptr = 0#8 then ([], ptr)
      else if deref ptr ≠ backslash then
        (deref ptr :: (parseStringLoop fuel ptr.tail).1, (parseStringLoop fuel ptr.tail).2)
      else
        ((unescape ptr.tail).1 ++ (parseStringLoop fuel (unescape ptr.tail).2.tail).1,
          (parseStringLoop fuel (unescape ptr.tail).2.tail).2) := rfl

/-- The string loop stops by itself. -/
theorem parseStringLoop_fuel (ptr : Bytes) (fuel fuel' : Nat) (hf : ptr.length < fuel) (hf' : ptr.length < fuel') :
    parseStringLoop fuel ptr = parseStringLoop fuel' ptr := by
  induction fuel generalizing ptr fuel' with
  | zero => cases hf
  | succ fuel ih =>
    obtain ⟨fuel', rfl⟩ : ∃ f, fuel' = f + 1 := ⟨fuel' - 1, by omega⟩
    cases ptr with
    | nil => rfl
    | cons c ptr =>
      have hpiece := unescape_length_le ptr
      have htail := List.length_tail (l := (unescape ptr).2)
      rw [List.length_cons] at hf hf'
      rw [parseStringLoop_succ, parseStringLoop_succ, List.tail_cons, ih ptr fuel' (by omega) (by omega),
        ih (unescape ptr).2.tail fuel' (by omega) (by omega)]

end Bounds

section Readers

/-- `parse_value`. -/
def value (text : Bytes) : Option (Item × Bytes) := parseValue (text.length + 1) text

/-- A list of elements, each followed by a comma or by the end of the list. -/
def elements (element : Bytes → Option (Item × Bytes)) (text : Bytes) : Option (List Item × Bytes) :=
  parseElements element (text.length + 1) text

/-- The copying loop of `parse_string`. -/
def stringLoop (ptr : Bytes) : Bytes × Bytes := parseStringLoop (ptr.length + 1) ptr

theorem value_consumes : Consumes value := fun text item rest h => parseValue_consumes (text.length + 1) text item rest h

theorem parseValue_eq_value (depth : Nat) (text : Bytes) (h : text.length < depth) : parseValue depth text = value text :=
  parseValue_depth (text.length + 1) text (Nat.lt_succ_self _) depth (text.length + 1) h (Nat.lt_succ_self _)

theorem value_eq (text : Bytes) : value text = valueStep value text := by
  rw [value, parseValue_succ]
  apply valueStep_congr text _ (parseValue_consumes text.length)
  intro text' h
  exact parseValue_eq_value text.length text' h

theorem parse_eq (text : Bytes) : parse text = (value (skip text)).map Prod.fst := by
  rw [parse, parseValue_eq_value _ _ (Nat.lt_succ_of_le (skip_length_le text))]

theorem elements_eq {element : Bytes → Option (Item × Bytes)} (hc : Consumes element) (text : Bytes) :
    elements element text =
      match element text with
      | none => none
      | some (child, rest) =>
        if deref (skip rest) = comma then
          (elements element (skip (skip rest).tail)).map fun more => (child :: more.1, more.2)
        else some ([child], skip rest) := by
  rw [elements, parseElements]
  cases hfirst : element text with
  | none => rfl
  | some first =>
    have hlt := hc text first.1 first.2 hfirst
    have hskip := skip_length_le first.2
    have hnext := skip_length_le (skip first.2).tail
    rw [List.length_tail] at hnext
    have hmore : parseElements element text.length (skip (skip first.2).tail) =
        elements element (skip (skip first.2).tail) :=
      parseElements_congr text.length (fun _ _ => rfl) hc _ (by omega) _ _ (by omega) (Nat.lt_succ_self _)
    simp only [hmore]
    split
    · cases elements element (skip (skip first.2).tail) <;> rfl
    · rfl

theorem stringLoop_eq (c : U8) (ptr : Bytes) :
    stringLoop (c :: ptr) =
      if c = quote ∨ c = 0#8 then ([], c :: ptr)
      else if c ≠ backslash then (c :: (stringLoop ptr).1, (stringLoop ptr).2)
      else ((unescape ptr).1 ++ (stringLoop (unescape ptr).2.tail).1, (stringLoop (unescape ptr).2.tail).2) := by
  have hpiece := unescape_length_le ptr
  have htail := List.length_tail (l := (unescape ptr).2)
  have hrest : parseStringLoop (ptr.length + 1) (unescape ptr).2.tail = stringLoop (unescape ptr).2.tail :=
    parseStringLoop_fuel _ _ _ (by omega) (Nat.lt_succ_self _)
  rw [stringLoop, parseStringLoop_succ, List.length_cons, List.tail_cons, deref_cons, hrest]
  rfl

theorem parseString_eq (str : Bytes) :
    parseString (quote :: str) = some (cString (stringLoop str).1, closeQuote (stringLoop str).2) := rfl

end Readers

end DataReceiveRelay.ParseFuel
