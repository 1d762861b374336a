import DataReceiveRelay.Decimal

/-!
# The JSON reader and printer

The vendored cJSON works on pointers into memory; a pointer is modelled by the
bytes from it to the end of memory, and reading past the end gives zero. A
number is kept as an exact rational, which is what cJSON's doubles are on
integers below 2 ^ 53. Memory allocation succeeds.

The element loop of arrays and objects is bounded by the length of the text and
the nesting by the first argument of `parseValue`. The sizing loop of
`print_string_ptr` may run forever; `none` is a print that never returns.
-/

namespace DataReceiveRelay.Json

open Words Decimal

inductive Kind where
  | false | true | null | number | string | array | object
  deriving DecidableEq, Repr

/-- A `cJSON` node, all fields zero unless set; `child` is the linked list below it. -/
structure Item where
  type : Kind := .false
  valuestring : Option Bytes := none
  valueint : U32 := 0#32
  valuedouble : ℚ := 0
  string : Option Bytes := none
  child : List Item := []

/-- The bytes of an ASCII text. -/
def chars (text : List Char) : Bytes := text.map fun c => BitVec.ofNat 8 c.toNat

/-- `*p`. -/
def deref (p : Bytes) : U8 := p.headD 0#8

@[simp] theorem deref_cons (c : U8) (p : Bytes) : deref (c :: p) = c := rfl

def quote : U8 := 34#8
def backslash : U8 := 92#8
def colon : U8 := 58#8
def minus : U8 := 45#8
def openBracket : U8 := 91#8
def closeBracket : U8 := 93#8
def openBrace : U8 := 123#8
def closeBrace : U8 := 125#8
def tab : U8 := 9#8

/-- Conversion of a double to `int`: truncation, saturating outside the range. -/
def doubleToInt (d : ℚ) : U32 :=
  BitVec.ofInt 32 (max (-2 ^ 31) (min (2 ^ 31 - 1) (if 0 ≤ d then d.floor else d.ceil)))

section Parser

def skip (text : Bytes) : Bytes := text.dropWhile fun c => c != 0#8 && decide (c ≤ 32#8)

def isDigit (c : U8) : Bool := decide (48#8 ≤ c) && decide (c ≤ 57#8)

/-- `do n = n * 10 + digit while (digit)`. -/
def readDigits : Nat → Bytes → Nat × Bytes
  | n, [] => (n, [])
  | n, c :: num => if isDigit c then readDigits (10 * n + (c.toNat - 48)) num else (n, c :: num)

/-- The sign, 1 or -1. -/
def parseSign (num : Bytes) : Int × Bytes := if deref num = minus then (-1, num.tail) else (1, num)

/-- The integer part; one leading zero is skipped. -/
def parseInteger (num : Bytes) : Nat × Bytes :=
  let num := if deref num = 48#8 then num.tail else num
  if isDigit (deref num) ∧ deref num ≠ 48#8 then readDigits 0 num else (0, num)

/-- The fraction: the digits so far, the scale and the text behind it. -/
def parseFraction (n : Nat) (num : Bytes) : Nat × Int × Bytes :=
  if deref num = 46#8 ∧ isDigit (deref num.tail) then
    let (m, rest) := readDigits n num.tail
    (m, (rest.length : Int) - num.tail.length, rest)
  else (n, 0, num)

/-- The exponent part: its signed value and the text behind it. -/
def parseExponent (num : Bytes) : Int × Bytes :=
  if deref num = 101#8 ∨ deref num = 69#8 then
    let num := num.tail
    let (signsubscale, num) : Int × Bytes := if deref num = 43#8 then (1, num.tail) else parseSign num
    let (subscale, num) := readDigits 0 num
    (subscale * signsubscale, num)
  else (0, num)

def parseNumber (num : Bytes) : Item × Bytes :=
  let (sign, num) := parseSign num
  let (n, num) := parseInteger num
  let (n, scale, num) := parseFraction n num
  let (exponent, num) := parseExponent num
  let d : ℚ := sign * n * 10 ^ (scale + exponent)
  ({ type := .number, valuedouble := d, valueint := doubleToInt d }, num)

def hexDigit (c : U8) : Option Nat :=
  if isDigit c then some (c.toNat - 48)
  else if 65#8 ≤ c ∧ c ≤ 70#8 then some (10 + (c.toNat - 65))
  else if 97#8 ≤ c ∧ c ≤ 102#8 then some (10 + (c.toNat - 97))
  else none

/-- Four hexadecimal digits, 0 when one of them is none. -/
def parseHex4 (str : Bytes) : U32 :=
  match hexDigit (deref str), hexDigit (deref (str.drop 1)), hexDigit (deref (str.drop 2)),
    hexDigit (deref (str.drop 3)) with
  | some a, some b, some c, some d => BitVec.ofNat 32 (((a * 16 + b) * 16 + c) * 16 + d)
  | _, _, _, _ => 0#32

def firstByteMark (len : Nat) : U32 :=
  match len with
  | 2 => 0xC0#32
  | 3 => 0xE0#32
  | 4 => 0xF0#32
  | _ => 0x00#32

/-- The bytes of a code point, written from the last to the first. -/
def utf8Loop (len : Nat) : Nat → U32 → Bytes → Bytes
  | 0, _, out => out
  | 1, uc, out => (uc ||| firstByteMark len).setWidth 8 :: out
  | k + 2, uc, out => utf8Loop len (k + 1) (uc >>> 6) (((uc ||| 0x80#32) &&& 0xBF#32).setWidth 8 :: out)

def utf8 (uc : U32) : Bytes :=
  let len := if uc < 0x80#32 then 1 else if uc < 0x800#32 then 2 else if uc < 0x10000#32 then 3 else 4
  utf8Loop len len uc []

/-- The `\u` escape: `ptr` is at the letter, the result at the last byte used. -/
def unescapeUnicode (ptr : Bytes) : Bytes × Bytes :=
  let uc := parseHex4 ptr.tail
  let ptr := ptr.drop 4
  if (0xDC00#32 ≤ uc ∧ uc ≤ 0xDFFF#32) ∨ uc = 0#32 then ([], ptr)
  else if 0xD800#32 ≤ uc ∧ uc ≤ 0xDBFF#32 then
    if deref (ptr.drop 1) ≠ backslash ∨ deref (ptr.drop 2) ≠ 117#8 then ([], ptr)
    else
      let uc2 := parseHex4 (ptr.drop 3)
      let ptr := ptr.drop 6
      if uc2 < 0xDC00#32 ∨ 0xDFFF#32 < uc2 then ([], ptr)
      else (utf8 (0x10000#32 + (((uc &&& 0x3FF#32) <<< 10) ||| (uc2 &&& 0x3FF#32))), ptr)
  else (utf8 uc, ptr)

/-- What follows a backslash. -/
def unescape (ptr : Bytes) : Bytes × Bytes :=
  if deref ptr = 98#8 then ([8#8], ptr)
  else if deref ptr = 102#8 then ([12#8], ptr)
  else if deref ptr = 110#8 then ([10#8], ptr)
  else if deref ptr = 114#8 then ([13#8], ptr)
  else if deref ptr = 116#8 then ([9#8], ptr)
  else if deref ptr = 117#8 then unescapeUnicode ptr
  else ([deref ptr], ptr)

/-- The copying loop of `parse_string`; it stops at a quote or a zero byte. -/
def parseStringLoop : Nat → Bytes → Bytes × Bytes
  | 0, ptr => ([], ptr)
  | fuel + 1, ptr =>
    if deref ptr = quote ∨ deref ptr = 0#8 then ([], ptr)
    else if deref ptr ≠ backslash then
      let (out, rest) := parseStringLoop fuel ptr.tail
      (deref ptr :: out, rest)
    else
      let (piece, ptr) := unescape ptr.tail
      let (out, rest) := parseStringLoop fuel ptr.tail
      (piece ++ out, rest)

/-- `parse_string`: the string read and the text behind it. A missing closing quote is accepted. -/
def parseString (str : Bytes) : Option (Bytes × Bytes) :=
  if deref str ≠ quote then none
  else
    let (out, ptr) := parseStringLoop str.length str.tail
    some (cString out, if deref ptr = quote then ptr.tail else ptr)

/-- `value (',' value)*` with the reader of one value, for arrays and objects alike. -/
def parseElements (element : Bytes → Option (Item × Bytes)) : Nat → Bytes → Option (List Item × Bytes)
  | 0, _ => none
  | fuel + 1, value =>
    match element value with
    | none => none
    | some (child, value) =>
      let value := skip value
      if deref value = comma then
        match parseElements element fuel (skip value.tail) with
        | none => none
        | some (children, value) => some (child :: children, value)
      else some ([child], value)

def parseArray (parseValue : Bytes → Option (Item × Bytes)) (value : Bytes) : Option (Item × Bytes) :=
  let value := skip value.tail
  if deref value = closeBracket then some ({ type := .array }, value.tail)
  else
    match parseElements parseValue (value.length + 1) value with
    | none => none
    | some (child, value) =>
      if deref value = closeBracket then some ({ type := .array, child := child }, value.tail) else none

/-- A key, a colon and a value. -/
def parseMember (parseValue : Bytes → Option (Item × Bytes)) (value : Bytes) : Option (Item × Bytes) :=
  match parseString value with
  | none => none
  | some (string, value) =>
    let value := skip value
    if deref value ≠ colon then none
    else
      match parseValue (skip value.tail) with
      | none => none
      | some (child, value) => some ({ child with string := some string }, value)

def parseObject (parseValue : Bytes → Option (Item × Bytes)) (value : Bytes) : Option (Item × Bytes) :=
  let value := skip value.tail
  if deref value = closeBrace then some ({ type := .object }, value.tail)
  else
    match parseElements (parseMember parseValue) (value.length + 1) value with
    | none => none
    | some (child, value) =>
      if deref value = closeBrace then some ({ type := .object, child := child }, value.tail) else none

def parseValue : Nat → Bytes → Option (Item × Bytes)
  | 0, _ => none
  | depth + 1, value =>
    if (chars ['n', 'u', 'l', 'l']).isPrefixOf value then some ({ type := .null }, value.drop 4)
    else if (chars ['f', 'a', 'l', 's', 'e']).isPrefixOf value then some ({ type := .false }, value.drop 5)
    else if (chars ['t', 'r', 'u', 'e']).isPrefixOf value then
      some ({ type := .true, valueint := 1#32 }, value.drop 4)
    else if deref value = quote then
      (parseString value).map fun (s, rest) => ({ type := .string, valuestring := some s }, rest)
    else if deref value = minus ∨ isDigit (deref value) then some (parseNumber value)
    else if deref value = openBracket then parseArray (parseValue depth) value
    else if deref value = openBrace then parseObject (parseValue depth) value
    else none

/-- `cJSON_Parse` on the text at `value`. -/
def parse (value : Bytes) : Option Item := (parseValue (value.length + 1) (skip value)).map Prod.fst

def toLower (c : U8) : U8 := if 65#8 ≤ c ∧ c ≤ 90#8 then c + 32#8 else c

/-- The strings compare equal without regard to case. -/
def strcasecmp (s₁ s₂ : Bytes) : Bool := s₁.map toLower == s₂.map toLower

/-- `cJSON_GetObjectItem`. -/
def getObjectItem (object : Item) (string : Bytes) : Option Item :=
  object.child.find? fun c => c.string.any fun s => strcasecmp s string

end Parser

section Printer

def needsEscape (c : U8) : Bool := (decide (0#8 < c) && decide (c < 32#8)) || c == quote || c == backslash

/-- The characters of `strchr("\"\\\b\f\n\r\t", token)`; the terminator is found too. -/
def shortEscape (token : U8) : Bool :=
  token == quote || token == backslash || token == 8#8 || token == 12#8 || token == 10#8 || token == 13#8 ||
    token == 9#8 || token == 0#8

/-- The sizing loop of `print_string_ptr`: `ptr` only moves past a control character without a short escape. -/
def sizeLoop : Nat → Bytes → U8 → Nat → Option Nat
  | 0, _, _, _ => none
  | fuel + 1, ptr, token, len =>
    if token = 0#8 then some len
    else if shortEscape (deref ptr) then sizeLoop fuel ptr (deref ptr) (len + 2)
    else if deref ptr < 32#8 then sizeLoop fuel ptr.tail (deref ptr) (len + 6)
    else sizeLoop fuel ptr (deref ptr) (len + 1)

def hexChar (d : Nat) : U8 := BitVec.ofNat 8 (if d < 10 then 48 + d else 87 + d)

/-- One character of the escaped text. -/
def escape (c : U8) : Bytes :=
  if c > 31#8 ∧ c ≠ quote ∧ c ≠ backslash then [c]
  else if c = backslash then [backslash, backslash]
  else if c = quote then [backslash, quote]
  else if c = 8#8 then [backslash, 98#8]
  else if c = 12#8 then [backslash, 102#8]
  else if c = 10#8 then [backslash, 110#8]
  else if c = 13#8 then [backslash, 114#8]
  else if c = 9#8 then [backslash, 116#8]
  else [backslash, 117#8, 48#8, 48#8, hexChar (c.toNat / 16), hexChar (c.toNat % 16)]

/-- `print_string_ptr` on a C string. -/
def printStringPtr (str : Bytes) : Option Bytes :=
  if str.any needsEscape then
    match sizeLoop (str.length + 2) str (deref str) 0 with
    | none => none
    | some _ => some (quote :: (str.flatMap escape ++ [quote]))
  else some (quote :: (str ++ [quote]))

/-- `%d`. -/
def intText (n : Int) : Bytes := if n < 0 then minus :: text 10 n.natAbs else text 10 n.natAbs

/-- `print_number`; the floating-point formats are left out, no `int` element reaches them. -/
def printNumber (item : Item) : Option Bytes :=
  if item.valuedouble = 0 then some [48#8]
  else if |(item.valueint.toInt : ℚ) - item.valuedouble| ≤ 1 / 2 ^ 52 ∧ item.valuedouble ≤ 2 ^ 31 - 1 ∧
      -2 ^ 31 ≤ item.valuedouble then
    some (intText item.valueint.toInt)
  else none

/-- The entries of an array, separated by a comma and a space. -/
def joinEntries : List Bytes → Bytes
  | [] => []
  | [e] => e
  | e :: entries => e ++ chars [',', ' '] ++ joinEntries entries

/-- The members of an object at the given depth, one line each. -/
def joinMembers (depth : Nat) : List (Bytes × Bytes) → Bytes
  | [] => []
  | (name, entry) :: members =>
    List.replicate depth tab ++ name ++ [colon, tab] ++ entry ++ (if members = [] then [] else [comma]) ++
      [lineFeed] ++ joinMembers depth members

/-- `print_value` with formatting; the first argument bounds the nesting. -/
def printValue : Nat → Nat → Item → Option Bytes
  | 0, _, _ => none
  | nesting + 1, depth, item =>
    match item.type with
    | .null => some (chars ['n', 'u', 'l', 'l'])
    | .false => some (chars ['f', 'a', 'l', 's', 'e'])
    | .true => some (chars ['t', 'r', 'u', 'e'])
    | .number => printNumber item
    | .string => printStringPtr (item.valuestring.getD [])
    | .array =>
      (item.child.mapM (printValue nesting (depth + 1))).map fun entries =>
        openBracket :: (joinEntries entries ++ [closeBracket])
    | .object =>
      if item.child.isEmpty then
        some (openBrace :: lineFeed :: (List.replicate (depth - 1) tab ++ [closeBrace]))
      else
        (item.child.mapM fun (c : Item) => do
          let name ← printStringPtr (c.string.getD [])
          let entry ← printValue nesting (depth + 1) c
          pure (name, entry)).map fun members =>
            openBrace :: lineFeed :: (joinMembers (depth + 1) members ++ List.replicate depth tab ++ [closeBrace])

end Printer

section Strings

theorem hexDigit_hexChar (d : Nat) (h : d < 16) : hexDigit (hexChar d) = some d := by
  interval_cases d <;> decide

theorem parseHex4_control (c : U8) (rest : Bytes) :
    parseHex4 (48#8 :: 48#8 :: hexChar (c.toNat / 16) :: hexChar (c.toNat % 16) :: rest) = c.setWidth 32 := by
  have hlt := c.isLt
  have hhigh := hexDigit_hexChar (c.toNat / 16) (by omega)
  have hlow := hexDigit_hexChar (c.toNat % 16) (by omega)
  have hzero : hexDigit 48#8 = some 0 := by decide
  simp only [parseHex4, List.drop_succ_cons, List.drop_zero, deref_cons, hhigh, hlow, hzero]
  apply BitVec.eq_of_toNat_eq
  simp only [BitVec.toNat_ofNat, BitVec.toNat_setWidth]
  omega

theorem utf8_control (c : U8) (h : c < 32#8) : utf8 (c.setWidth 32) = [c] := by
  revert c
  decide

theorem unescapeUnicode_control (c : U8) (h : c < 32#8) (hz : c ≠ 0#8) (rest : Bytes) :
    unescapeUnicode (117#8 :: 48#8 :: 48#8 :: hexChar (c.toNat / 16) :: hexChar (c.toNat % 16) :: rest) =
      ([c], hexChar (c.toNat % 16) :: rest) := by
  have hbmp : ¬((0xDC00#32 ≤ c.setWidth 32 ∧ c.setWidth 32 ≤ 0xDFFF#32) ∨ c.setWidth 32 = 0#32) ∧
      ¬(0xD800#32 ≤ c.setWidth 32 ∧ c.setWidth 32 ≤ 0xDBFF#32) := by
    revert c
    decide
  simp only [unescapeUnicode, List.tail_cons, parseHex4_control, if_neg hbmp.1, if_neg hbmp.2, utf8_control c h,
    List.drop_succ_cons, List.drop_zero]

theorem escape_plain (c : U8) (h : c > 31#8 ∧ c ≠ quote ∧ c ≠ backslash) : escape c = [c] := if_pos h

/-- The characters that print as themselves. -/
theorem plain_of_not_needsEscape (c : U8) (hz : c ≠ 0#8) (h : needsEscape c = false) :
    c > 31#8 ∧ c ≠ quote ∧ c ≠ backslash := by
  revert c
  decide

/-- One escaped character is read back in one turn of the copying loop. -/
theorem parseStringLoop_escape (c : U8) (hz : c ≠ 0#8) (fuel : Nat) (rest : Bytes) :
    parseStringLoop (fuel + 1) (escape c ++ rest) =
      (c :: (parseStringLoop fuel rest).1, (parseStringLoop fuel rest).2) := by
  by_cases hplain : c > 31#8 ∧ c ≠ quote ∧ c ≠ backslash
  · have hstop : ¬(c = quote ∨ c = 0#8) := not_or.mpr ⟨hplain.2.1, hz⟩
    rw [escape_plain c hplain, List.singleton_append, parseStringLoop, deref_cons, if_neg hstop,
      if_pos hplain.2.2, List.tail_cons]
  · have hback (piece : Bytes) (x y : U8) (tail : Bytes)
        (h : unescape (y :: tail) = (piece, x :: rest)) :
        parseStringLoop (fuel + 1) (backslash :: y :: tail) =
          (piece ++ (parseStringLoop fuel rest).1, (parseStringLoop fuel rest).2) := by
      have hstop : ¬(backslash = quote ∨ backslash = 0#8) := by decide
      simp only [parseStringLoop, deref_cons, if_neg hstop, ne_eq, not_true_eq_false, if_false, List.tail_cons, h]
    simp only [escape, if_neg hplain]
    split
    · next hc => subst hc; exact hback [backslash] backslash backslash rest rfl
    split
    · next hc => subst hc; exact hback [quote] quote quote rest rfl
    split
    · next hc => subst hc; exact hback [8#8] 98#8 98#8 rest rfl
    split
    · next hc => subst hc; exact hback [12#8] 102#8 102#8 rest rfl
    split
    · next hc => subst hc; exact hback [10#8] 110#8 110#8 rest rfl
    split
    · next hc => subst hc; exact hback [13#8] 114#8 114#8 rest rfl
    split
    · next hc => subst hc; exact hback [9#8] 116#8 116#8 rest rfl
    · next h₁ h₂ _ _ _ _ _ =>
      have hcontrol : c < 32#8 := by
        rw [BitVec.lt_def]
        by_contra hge
        apply hplain
        refine ⟨?_, h₂, h₁⟩
        rw [gt_iff_lt, BitVec.lt_def]
        simp only [BitVec.toNat_ofNat] at hge ⊢
        omega
      exact hback [c] (hexChar (c.toNat % 16)) 117#8 _ (by
        simp only [unescape, deref_cons]
        exact unescapeUnicode_control c hcontrol hz rest)

theorem parseStringLoop_escaped (s : Bytes) (hs : 0#8 ∉ s) (fuel : Nat) (hf : s.length < fuel) (rest : Bytes) :
    parseStringLoop fuel (s.flatMap escape ++ quote :: rest) = (s, quote :: rest) := by
  induction s generalizing fuel with
  | nil =>
    obtain ⟨f, rfl⟩ : ∃ f, fuel = f + 1 := ⟨fuel - 1, by simp at hf; omega⟩
    simp [parseStringLoop]
  | cons c s ih =>
    obtain ⟨f, rfl⟩ : ∃ f, fuel = f + 1 := ⟨fuel - 1, by omega⟩
    simp only [List.mem_cons, not_or, List.length_cons] at hs hf
    rw [List.flatMap_cons, List.append_assoc, parseStringLoop_escape c (Ne.symm hs.1), ih hs.2 f (by omega)]

theorem escape_length (c : U8) : 1 ≤ (escape c).length ∧ (escape c).length ≤ 6 := by
  unfold escape
  repeat' split
  all_goals simp

theorem flatMap_escape_length (s : Bytes) :
    s.length ≤ (s.flatMap escape).length ∧ (s.flatMap escape).length ≤ 6 * s.length := by
  induction s with
  | nil => simp
  | cons c s ih =>
    have hone := escape_length c
    simp only [List.flatMap_cons, List.length_append, List.length_cons]
    omega

/-- Whatever the sizing loop lets through is the escaped text in quotes. -/
theorem printStringPtr_eq (str out : Bytes) (hz : 0#8 ∉ str) (h : printStringPtr str = some out) :
    out = quote :: (str.flatMap escape ++ [quote]) := by
  unfold printStringPtr at h
  by_cases hany : str.any needsEscape = true
  · rw [if_pos hany] at h
    cases hsize : sizeLoop (str.length + 2) str (deref str) 0 with
    | none => simp [hsize] at h
    | some len => simpa [hsize] using h.symm
  · rw [if_neg hany] at h
    have hplain : str.flatMap escape = str := by
      have hone : ∀ c ∈ str, escape c = [c] := by
        intro c hc
        have hno : needsEscape c = false := by
          rw [Bool.eq_false_iff]
          exact fun hn => hany (List.any_eq_true.mpr ⟨c, hc, hn⟩)
        have hne : c ≠ 0#8 := by
          rintro rfl
          exact hz hc
        exact escape_plain c (plain_of_not_needsEscape c hne hno)
      rw [List.flatMap_congr hone, List.flatMap_singleton']
    rw [hplain]
    simpa using h.symm

/-- The characters the sizing loop moves past. -/
def movesPast (c : U8) : Bool := decide (c < 32#8) && !shortEscape c

theorem movesPast_iff (c : U8) : movesPast c = true ↔ c < 32#8 ∧ ¬shortEscape c = true := by
  simp [movesPast]

theorem sizeLoop_stuck (fuel : Nat) (c : U8) (ptr : Bytes) (token : U8) (len : Nat) (hc : c ≠ 0#8)
    (hstuck : movesPast c = false) (ht : token ≠ 0#8) : sizeLoop fuel (c :: ptr) token len = none := by
  induction fuel generalizing token len with
  | zero => rfl
  | succ fuel ih =>
    rw [sizeLoop, if_neg ht, deref_cons]
    by_cases hshort : shortEscape c = true
    · rw [if_pos hshort]
      exact ih c (len + 2) hc
    · have hlarge : ¬c < 32#8 := by simpa [movesPast, hshort] using hstuck
      rw [if_neg hshort, if_neg hlarge]
      exact ih c (len + 1) hc

/-- A turn at a character the loop moves past. -/
theorem sizeLoop_moves (turns : Nat) (c : U8) (str : Bytes) (token : U8) (len : Nat) (ht : token ≠ 0#8)
    (hmove : movesPast c = true) : sizeLoop (turns + 1) (c :: str) token len = sizeLoop turns str c (len + 6) := by
  obtain ⟨hlow, hshort⟩ := (movesPast_iff c).mp hmove
  rw [sizeLoop, if_neg ht, deref_cons, if_neg hshort, if_pos hlow, List.tail_cons]

/-- No number of turns ends the loop on a string with a character it does not move past. -/
theorem sizeLoop_never (str : Bytes) (turns : Nat) (token : U8) (len : Nat) (hz : 0#8 ∉ str) (ht : token ≠ 0#8)
    (hstuck : str.all movesPast = false) : sizeLoop turns str token len = none := by
  induction str generalizing turns token len with
  | nil => cases hstuck
  | cons c str ih =>
    obtain ⟨hc, hrest⟩ := not_or.mp (mt List.mem_cons.mpr hz)
    cases hmove : movesPast c with
    | false => exact sizeLoop_stuck turns c str token len (Ne.symm hc) hmove ht
    | true =>
      rw [List.all_cons, hmove, Bool.true_and] at hstuck
      cases turns with
      | zero => rfl
      | succ turns =>
        rw [sizeLoop_moves turns c str token len ht hmove]
        exact ih turns c (len + 6) hrest (Ne.symm hc) hstuck

/-- Six bytes for each character, and two more when the terminator is taken for a short escape. -/
theorem sizeLoop_len (str : Bytes) (token : U8) (len : Nat) (hz : 0#8 ∉ str) (ht : token ≠ 0#8)
    (hmove : str.all movesPast = true) :
    sizeLoop (str.length + 2) str token len = some (len + 6 * str.length + 2) := by
  induction str generalizing token len with
  | nil =>
    have hend : shortEscape (deref []) = true := by decide
    have hzero : deref [] = 0#8 := rfl
    rw [List.length_nil, sizeLoop, if_neg ht, if_pos hend, sizeLoop, if_pos hzero]
  | cons c str ih =>
    obtain ⟨hc, hrest⟩ := not_or.mp (mt List.mem_cons.mpr hz)
    rw [List.all_cons, Bool.and_eq_true] at hmove
    rw [show (c :: str).length + 2 = str.length + 2 + 1 from rfl, sizeLoop_moves _ c str token len ht hmove.1,
      ih c (len + 6) hrest (Ne.symm hc) hmove.2, List.length_cons]
    congr 1
    omega

theorem deref_ne_zero (str : Bytes) (hz : 0#8 ∉ str) (hany : str.any needsEscape = true) : deref str ≠ 0#8 := by
  cases str with
  | nil => cases hany
  | cons c str =>
    rw [deref_cons]
    rintro rfl
    exact hz List.mem_cons_self

/-- A string without anything to escape, or one of control characters that have no short escape. -/
def Prints (str : Bytes) : Prop := (∀ c ∈ str, needsEscape c = false) ∨ ∀ c ∈ str, movesPast c = true

theorem prints_plain (str : Bytes) (hany : str.any needsEscape = false) : Prints str :=
  Or.inl (by simpa using hany)

theorem prints_escaped (str : Bytes) (hany : str.any needsEscape = true) :
    Prints str ↔ str.all movesPast = true := by
  have hsome : ¬∀ c ∈ str, needsEscape c = false := by simpa using hany
  rw [Prints, or_iff_right hsome, List.all_eq_true]

/-- Exactly these strings are printed; on any other one the call never returns. -/
theorem printStringPtr_isSome (str : Bytes) (hz : 0#8 ∉ str) : (printStringPtr str).isSome = true ↔ Prints str := by
  unfold printStringPtr
  cases hany : str.any needsEscape with
  | false => exact iff_of_true rfl (prints_plain str hany)
  | true =>
    have htoken := deref_ne_zero str hz hany
    rw [prints_escaped str hany]
    cases hall : str.all movesPast with
    | false =>
      rw [sizeLoop_never str _ _ 0 hz htoken hall]
      simp
    | true =>
      rw [sizeLoop_len str _ 0 hz htoken hall]
      simp

theorem printStringPtr_length (str out : Bytes) (hz : 0#8 ∉ str) (h : printStringPtr str = some out) :
    out.length ≤ 6 * str.length + 2 := by
  have hflat := (flatMap_escape_length str).2
  rw [printStringPtr_eq str out hz h]
  simp only [List.length_cons, List.length_append, List.length_nil]
  omega

/-- A printed string is read back, up to the text behind it. -/
theorem parseString_print (str out : Bytes) (hz : 0#8 ∉ str) (h : printStringPtr str = some out) (rest : Bytes) :
    parseString (out ++ rest) = some (str, rest) := by
  rw [printStringPtr_eq str out hz h]
  have hlen := (flatMap_escape_length str).1
  have hloop := parseStringLoop_escaped str hz (quote :: (str.flatMap escape ++ [quote]) ++ rest).length
    (by simp only [List.length_append, List.length_cons]; omega) rest
  simp only [parseString, List.cons_append, deref_cons, ne_eq, not_true_eq_false, if_false, List.tail_cons,
    List.append_assoc, List.nil_append] at hloop ⊢
  rw [hloop]
  simp [cString_eq_self str hz]

end Strings

section Numbers

/-- A byte that ends a decimal integer. -/
def endsNumber (c : U8) : Prop := isDigit c = false ∧ c ≠ 46#8 ∧ c ≠ 101#8 ∧ c ≠ 69#8

instance (c : U8) : Decidable (endsNumber c) := inferInstanceAs (Decidable (_ ∧ _))

theorem isDigit_ascii (d : Nat) (h : d < 10) : isDigit (ascii d) = true := by
  simp only [isDigit, BitVec.le_def, ascii_toNat d h, BitVec.toNat_ofNat, Bool.and_eq_true, decide_eq_true_eq]
  omega

theorem readDigits_map (digits : List Nat) (n : Nat) (rest : Bytes) (hd : ∀ d ∈ digits, d < 10)
    (hr : isDigit (deref rest) = false) :
    readDigits n (digits.map ascii ++ rest) = (digits.foldl (fun m d => 10 * m + d) n, rest) := by
  induction digits generalizing n with
  | nil =>
    cases rest with
    | nil => rfl
    | cons c rest =>
      rw [deref_cons] at hr
      simp [readDigits, hr]
  | cons d digits ih =>
    have hlt : d < 10 := hd d (by simp)
    rw [List.map_cons, List.cons_append, readDigits, if_pos (isDigit_ascii d hlt),
      ih _ (fun e he => hd e (by simp [he])), List.foldl_cons, ascii_toNat d hlt, Nat.add_sub_cancel_left]

theorem doubleToInt_intCast (n : Int) (hlo : -2 ^ 31 ≤ n) (hhi : n ≤ 2 ^ 31 - 1) :
    doubleToInt (n : ℚ) = BitVec.ofInt 32 n := by
  have hfloor : (if 0 ≤ (n : ℚ) then (n : ℚ).floor else (n : ℚ).ceil) = n := by
    split
    · exact Rat.floor_intCast n
    · exact Rat.ceil_intCast n
  rw [doubleToInt, hfloor, min_eq_right hhi, max_eq_right hlo]

theorem intText_length (n : Int) : (intText n).length ≤ 11 := by
  have htext := text_length_le 10 n.natAbs
  unfold intText
  split
  · rw [List.length_cons]
    omega
  · omega

theorem parseExponent_none (rest : Bytes) (h : endsNumber (deref rest)) : parseExponent rest = (0, rest) := by
  simp [parseExponent, h.2.2.1, h.2.2.2]

theorem text_cons (m : Nat) (hm : m < 10 ^ 10) : ∃ d digits, text 10 m = ascii d :: digits.map ascii ∧
    (d :: digits) = decimal 10 m ∧ d < 10 := by
  obtain ⟨d, digits, hdec⟩ := List.exists_cons_of_ne_nil (decimal_ne_nil 9 m)
  refine ⟨d, digits, by rw [text, hdec, List.map_cons], hdec.symm, ?_⟩
  exact decimal_lt_ten 10 m hm d (by rw [hdec]; exact List.mem_cons_self)

theorem ascii_ne_zero (d : Nat) (h : d < 10) (hz : d ≠ 0) : ascii d ≠ 48#8 := by
  rw [ne_eq, ← BitVec.toNat_inj, ascii_toNat d h]
  simpa using hz

/-- A canonical numeral is read as a whole. -/
theorem parseInteger_text (m : Nat) (hm : m < 10 ^ 10) (rest : Bytes) (hr : isDigit (deref rest) = false) :
    parseInteger (text 10 m ++ rest) = (m, rest) := by
  by_cases hz : m = 0
  · subst hz
    have htext : text 10 0 = [48#8] := by decide
    simp [parseInteger, htext, hr]
  · obtain ⟨d, digits, htext, hdec, hd⟩ := text_cons m hm
    have hne := ascii_ne_zero d hd (decimal_head_ne_zero 10 m d digits hm (by omega) hdec.symm)
    have hvalue := value_decimal 10 m hm
    have hdigits := decimal_lt_ten 10 m hm
    rw [← hdec] at hdigits hvalue
    have hread := readDigits_map (d :: digits) 0 rest hdigits hr
    rw [List.map_cons, ← htext, ← value, hvalue] at hread
    have hfirst : deref (text 10 m ++ rest) = ascii d := by rw [htext, List.cons_append, deref_cons]
    simp only [parseInteger, hfirst, hne, if_false, isDigit_ascii d hd, ne_eq, not_false_eq_true, and_self,
      if_true, hread]

theorem parseNumber_int (n : Int) (hlo : -2 ^ 31 ≤ n) (hhi : n ≤ 2 ^ 31 - 1) (rest : Bytes)
    (hr : endsNumber (deref rest)) :
    parseNumber (intText n ++ rest) =
      ({ type := .number, valuedouble := n, valueint := BitVec.ofInt 32 n }, rest) := by
  have habs : n.natAbs < 10 ^ 10 := by omega
  obtain ⟨sign, hsign, hmul⟩ : ∃ sign : Int, parseSign (intText n ++ rest) = (sign, text 10 n.natAbs ++ rest) ∧
      sign * n.natAbs = n := by
    unfold intText
    by_cases hneg : n < 0
    · refine ⟨-1, ?_, by omega⟩
      simp [hneg, parseSign]
    · refine ⟨1, ?_, by omega⟩
      obtain ⟨d, digits, htext, -, hd⟩ := text_cons n.natAbs habs
      have hfirst : ascii d ≠ minus := by
        rw [ne_eq, ← BitVec.toNat_inj, ascii_toNat d hd]
        simp [minus]
        omega
      simp [hneg, parseSign, htext, hfirst]
  have hfraction : parseFraction n.natAbs rest = (n.natAbs, 0, rest) := by simp [parseFraction, hr.2.1]
  have hvalue : (sign : ℚ) * (n.natAbs : ℚ) * 10 ^ ((0 : Int) + 0) = n := by
    rw [add_zero, zpow_zero, mul_one, ← Int.cast_natCast, ← Int.cast_mul, hmul]
  simp only [parseNumber, hsign, parseInteger_text _ habs rest hr.1, hfraction, parseExponent_none rest hr, hvalue,
    doubleToInt_intCast n hlo hhi]

end Numbers

section Documents

theorem skip_solid (value : Bytes) (h : 32#8 < deref value) : skip value = value := by
  cases value with
  | nil => rfl
  | cons c value =>
    rw [deref_cons] at h
    apply List.dropWhile_cons_of_neg
    simp [BitVec.not_le.mpr h]

theorem skip_space (c : U8) (value : Bytes) (hz : c ≠ 0#8) (h : c ≤ 32#8) : skip (c :: value) = skip value :=
  List.dropWhile_cons_of_pos (by simp [hz, h])

theorem skip_tabs (k : Nat) (value : Bytes) : skip (List.replicate k tab ++ value) = skip value := by
  induction k with
  | zero => rfl
  | succ k ih => rw [List.replicate_succ, List.cons_append, skip_space tab _ (by decide) (by decide), ih]

theorem isPrefixOf_deref (c : U8) (word value : Bytes) (h : deref value ≠ c) :
    (c :: word).isPrefixOf value = false := by
  cases value with
  | nil => rfl
  | cons d value =>
    rw [deref_cons] at h
    simp [List.isPrefixOf, Ne.symm h]

/-- No keyword starts with this byte. -/
def NoKeyword (value : Bytes) : Prop := deref value ≠ 110#8 ∧ deref value ≠ 102#8 ∧ deref value ≠ 116#8

theorem parseValue_noKeyword (depth : Nat) (value : Bytes) (h : NoKeyword value) :
    parseValue (depth + 1) value =
      if deref value = quote then
        (parseString value).map fun (s, rest) => ({ type := .string, valuestring := some s }, rest)
      else if deref value = minus ∨ isDigit (deref value) then some (parseNumber value)
      else if deref value = openBracket then parseArray (parseValue depth) value
      else if deref value = openBrace then parseObject (parseValue depth) value
      else none := by
  have hn := isPrefixOf_deref 110#8 (chars ['u', 'l', 'l']) value h.1
  have hf := isPrefixOf_deref 102#8 (chars ['a', 'l', 's', 'e']) value h.2.1
  have ht := isPrefixOf_deref 116#8 (chars ['r', 'u', 'e']) value h.2.2
  have hn' : (chars ['n', 'u', 'l', 'l']).isPrefixOf value = false := hn
  have hf' : (chars ['f', 'a', 'l', 's', 'e']).isPrefixOf value = false := hf
  have ht' : (chars ['t', 'r', 'u', 'e']).isPrefixOf value = false := ht
  simp only [parseValue, hn', hf', ht', Bool.false_eq_true, if_false]

/-- A reader takes exactly the text of an item, whatever a delimiter separates from it. -/
structure Reads (read : Bytes → Option (Item × Bytes)) (value : Bytes) (item : Item) : Prop where
  solid : 32#8 < deref value
  reads : ∀ rest, endsNumber (deref rest) → read (value ++ rest) = some (item, rest)

theorem Reads.solid_append {read : Bytes → Option (Item × Bytes)} {value : Bytes} {item : Item}
    (h : Reads read value item) (rest : Bytes) : 32#8 < deref (value ++ rest) := by
  cases value with
  | nil => exact absurd h.solid (by decide)
  | cons c value => exact h.solid

theorem reads_string (depth : Nat) (str out : Bytes) (hz : 0#8 ∉ str) (h : printStringPtr str = some out) :
    Reads (parseValue (depth + 1)) out { type := .string, valuestring := some str } := by
  have hout := printStringPtr_eq str out hz h
  have hfirst (rest : Bytes) : deref (out ++ rest) = quote := by rw [hout, List.cons_append, deref_cons]
  constructor
  · rw [hout, deref_cons]
    decide
  · intro rest _
    have hkey : NoKeyword (out ++ rest) := by
      rw [NoKeyword, hfirst]
      decide
    rw [parseValue_noKeyword depth _ hkey, hfirst, if_pos rfl, parseString_print str out hz h]
    rfl

theorem number_start (c : U8) (h : c = minus ∨ isDigit c = true) :
    32#8 < c ∧ c ≠ 110#8 ∧ c ≠ 102#8 ∧ c ≠ 116#8 ∧ c ≠ quote := by
  revert c
  decide

theorem reads_int (depth : Nat) (n : Int) (hlo : -2 ^ 31 ≤ n) (hhi : n ≤ 2 ^ 31 - 1) :
    Reads (parseValue (depth + 1)) (intText n)
      { type := .number, valuedouble := n, valueint := BitVec.ofInt 32 n } := by
  have hfirst : ∃ c tail, intText n = c :: tail ∧ (c = minus ∨ isDigit c = true) := by
    unfold intText
    split
    · exact ⟨minus, _, rfl, Or.inl rfl⟩
    · obtain ⟨d, digits, htext, -, hd⟩ := text_cons n.natAbs (by omega)
      exact ⟨ascii d, _, htext, Or.inr (isDigit_ascii d hd)⟩
  obtain ⟨c, tail, htext, hc⟩ := hfirst
  have hbyte := number_start c hc
  constructor
  · rw [htext, deref_cons]
    exact hbyte.1
  · intro rest hr
    have hderef : deref (intText n ++ rest) = c := by rw [htext, List.cons_append, deref_cons]
    rw [parseValue_noKeyword depth _ (by rw [NoKeyword, hderef]; exact ⟨hbyte.2.1, hbyte.2.2.1, hbyte.2.2.2.1⟩),
      hderef, if_neg hbyte.2.2.2.2, if_pos hc, parseNumber_int n hlo hhi rest hr]

/-- A key with its colon, then a value. -/
theorem parseMember_print (read : Bytes → Option (Item × Bytes)) (key out value : Bytes) (item : Item)
    (hz : 0#8 ∉ key) (hk : printStringPtr key = some out) (hv : Reads read value item) (rest : Bytes)
    (hr : endsNumber (deref rest)) :
    parseMember read (out ++ [colon, tab] ++ value ++ rest) = some ({ item with string := some key }, rest) := by
  have hstring := parseString_print key out hz hk ([colon, tab] ++ value ++ rest)
  rw [← List.append_assoc, ← List.append_assoc] at hstring
  have hcolon : skip ([colon, tab] ++ value ++ rest) = [colon, tab] ++ value ++ rest :=
    skip_solid _ (by simp [colon])
  have hspace : skip (tab :: (value ++ rest)) = value ++ rest := by
    rw [skip_space tab _ (by decide) (by decide), skip_solid _ (hv.solid_append rest)]
  simp only [parseMember, hstring, hcolon]
  simp [hspace, hv.reads rest hr]

theorem parseElements_last (element : Bytes → Option (Item × Bytes)) (fuel : Nat) (value after : Bytes)
    (child : Item) (h : element value = some (child, after)) (hend : deref (skip after) ≠ comma) :
    parseElements element (fuel + 1) value = some ([child], skip after) := by
  simp [parseElements, h, hend]

theorem parseElements_more (element : Bytes → Option (Item × Bytes)) (fuel : Nat) (value after next last : Bytes)
    (child : Item) (children : List Item) (h : element value = some (child, after))
    (hnext : skip after = comma :: next) (hrest : parseElements element fuel (skip next) = some (children, last)) :
    parseElements element (fuel + 1) value = some (child :: children, last) := by
  simp [parseElements, h, hnext, hrest]

/-- A member to be printed: its key, the key's and the value's text, and the value. -/
structure Member where
  key : Bytes
  out : Bytes
  value : Bytes
  item : Item

def Member.Good (read : Bytes → Option (Item × Bytes)) (m : Member) : Prop :=
  0#8 ∉ m.key ∧ printStringPtr m.key = some m.out ∧ Reads read m.value m.item

/-- The printed text of members. -/
def membersText (depth : Nat) (members : List Member) : Bytes :=
  joinMembers depth (members.map fun m => (m.out, m.value))

/-- The children read from them. -/
def memberItems (members : List Member) : List Item := members.map fun m => { m.item with string := some m.key }

theorem Member.Good.out_solid {read : Bytes → Option (Item × Bytes)} {m : Member} (h : m.Good read) (rest : Bytes) :
    skip (m.out ++ rest) = m.out ++ rest ∧ deref (m.out ++ rest) = quote := by
  have hout := printStringPtr_eq m.key m.out h.1 h.2.1
  have hfirst : deref (m.out ++ rest) = quote := by rw [hout, List.cons_append, deref_cons]
  exact ⟨skip_solid _ (by rw [hfirst]; decide), hfirst⟩

theorem skip_membersText (read : Bytes → Option (Item × Bytes)) (depth : Nat) (m : Member) (members : List Member)
    (hm : m.Good read) (tail : Bytes) :
    skip (membersText depth (m :: members) ++ tail) =
      m.out ++ [colon, tab] ++ m.value ++
        ((if members = [] then [] else [comma]) ++ lineFeed :: (membersText depth members ++ tail)) := by
  have hempty : members.map (fun m => (m.out, m.value)) = [] ↔ members = [] := List.map_eq_nil_iff
  rw [membersText, List.map_cons, joinMembers]
  simp only [hempty, List.append_assoc]
  rw [skip_tabs, (hm.out_solid _).1]
  simp [membersText]

/-- Printed members are read back one by one. -/
theorem parseElements_members (read : Bytes → Option (Item × Bytes)) (depth : Nat) (members : List Member)
    (hm : ∀ m ∈ members, m.Good read) (hne : members ≠ []) (fuel : Nat) (hf : members.length ≤ fuel)
    (tail rest : Bytes) (htail : skip tail = closeBrace :: rest) :
    parseElements (parseMember read) fuel (skip (membersText depth members ++ tail)) =
      some (memberItems members, closeBrace :: rest) := by
  induction members generalizing fuel with
  | nil => exact absurd rfl hne
  | cons m members ih =>
    obtain ⟨f, rfl⟩ : ∃ f, fuel = f + 1 := ⟨fuel - 1, by simp at hf; omega⟩
    obtain ⟨hz, hk, hv⟩ := hm m (by simp)
    rw [skip_membersText read depth m members (hm m (by simp)) tail]
    cases members with
    | nil =>
      have hmember := parseMember_print read m.key m.out m.value m.item hz hk hv (lineFeed :: tail)
        (by rw [deref_cons]; decide)
      have hskip : skip (lineFeed :: tail) = closeBrace :: rest := by
        rw [skip_space lineFeed _ (by decide) (by decide), htail]
      have hlast := parseElements_last (parseMember read) f _ _ _ hmember (by rw [hskip, deref_cons]; decide)
      rw [hskip] at hlast
      exact hlast
    | cons m' members =>
      have hmember := parseMember_print read m.key m.out m.value m.item hz hk hv
        (comma :: lineFeed :: (membersText depth (m' :: members) ++ tail)) (by rw [deref_cons]; decide)
      have hrest := ih (fun n hn => hm n (by simp [hn])) (by simp) f (by simp at hf ⊢; omega)
      refine parseElements_more _ f _ _ _ _ _ _ hmember (skip_solid _ (by rw [deref_cons]; decide)) ?_
      rw [skip_space lineFeed _ (by decide) (by decide)]
      exact hrest

theorem membersText_length (depth : Nat) (members : List Member) :
    members.length ≤ (membersText depth members).length := by
  induction members with
  | nil => simp
  | cons m members ih =>
    rw [membersText] at ih ⊢
    rw [List.map_cons, joinMembers]
    simp only [List.length_append, List.length_cons, List.length_nil]
    omega

/-- A printed object with at least one member is read back, up to the text behind it. -/
theorem parseObject_print (read : Bytes → Option (Item × Bytes)) (depth : Nat) (members : List Member)
    (hm : ∀ m ∈ members, m.Good read) (hne : members ≠ []) (rest : Bytes) :
    parseObject read (openBrace :: lineFeed :: (membersText (depth + 1) members ++ List.replicate depth tab ++
      [closeBrace]) ++ rest) = some ({ type := .object, child := memberItems members }, rest) := by
  obtain ⟨m, members, rfl⟩ := List.exists_cons_of_ne_nil hne
  have hgood := hm m (by simp)
  have htail : skip (List.replicate depth tab ++ closeBrace :: rest) = closeBrace :: rest := by
    rw [skip_tabs, skip_solid _ (by rw [deref_cons]; decide)]
  have hstart : skip (lineFeed :: (membersText (depth + 1) (m :: members) ++
      (List.replicate depth tab ++ closeBrace :: rest))) =
        skip (membersText (depth + 1) (m :: members) ++ (List.replicate depth tab ++ closeBrace :: rest)) :=
    skip_space lineFeed _ (by decide) (by decide)
  have hlen := membersText_length (depth + 1) members
  have hread (fuel : Nat) (hf : (m :: members).length ≤ fuel) :=
    parseElements_members read (depth + 1) (m :: members) hm hne fuel hf _ rest htail
  have hbrace : deref (skip (membersText (depth + 1) (m :: members) ++
      (List.replicate depth tab ++ closeBrace :: rest))) ≠ closeBrace := by
    rw [skip_membersText read _ m members hgood, List.append_assoc, List.append_assoc, (hgood.out_solid _).2]
    decide
  have hfuel : (m :: members).length ≤ (skip (membersText (depth + 1) (m :: members) ++
      (List.replicate depth tab ++ closeBrace :: rest))).length + 1 := by
    rw [skip_membersText read _ m members hgood]
    simp only [List.length_append, List.length_cons]
    omega
  simp only [parseObject, List.cons_append, List.tail_cons, List.append_assoc, List.nil_append, hstart, if_neg hbrace,
    hread _ hfuel, deref_cons, if_true]

/-- An object as a value. -/
theorem reads_object (nesting depth : Nat) (members : List Member)
    (hm : ∀ m ∈ members, m.Good (parseValue nesting)) (hne : members ≠ []) :
    Reads (parseValue (nesting + 1)) (openBrace :: lineFeed :: (membersText (depth + 1) members ++
      List.replicate depth tab ++ [closeBrace])) { type := .object, child := memberItems members } := by
  constructor
  · rw [deref_cons]
    decide
  · intro rest _
    have hkey : NoKeyword (openBrace :: lineFeed :: (membersText (depth + 1) members ++
        List.replicate depth tab ++ [closeBrace]) ++ rest) := by
      rw [NoKeyword, List.cons_append, deref_cons]
      decide
    rw [parseValue_noKeyword nesting _ hkey, parseObject_print (parseValue nesting) depth members hm hne rest]
    rfl

end Documents

end DataReceiveRelay.Json
