import DataReceiveRelay.ParseFuel

/-!
# What the parser reads and stores

The readers of `Json` say what a text parses to. Here the same functions are
followed for the pointers they dereference, and `parse_string` for the block it
allocates: a first loop counts the characters, a second one copies them. The
second loop takes four characters behind `\u` without looking at them, so the two
may stop at different quotes.
-/

namespace DataReceiveRelay.ParseAccess

open Words Json ParseFuel

/-- A byte read through a pointer, or a string stored with its terminator into a block. -/
inductive Access where
  | load (p : Bytes)
  | copy (stored room : Nat)

/-- A string that is no longer than its block. -/
def Access.fits : Access → Bool
  | .load _ => true
  | .copy stored room => decide (stored ≤ room)

/-- A read in front of the given tail of the memory; a string that fits. -/
def Access.inside (tail : Bytes) : Access → Bool
  | .load p => decide (tail.length < p.length)
  | .copy stored room => decide (stored ≤ room)

section Parser

/-- A loop from `text` to `rest`, with the byte that stops it. -/
def through (text rest : Bytes) : List Access :=
  (List.range (text.length - rest.length + 1)).map fun i => .load (text.drop i)

def skipAccesses (text : Bytes) : List Access := through text (skip text)

/-- `strncmp` stops at the first difference. -/
def compareAccesses : Bytes → Bytes → List Access
  | [], _ => []
  | c :: word, text => .load text :: if deref text = c then compareAccesses word text.tail else []

/-- A decimal point makes the parser look at the byte behind it. -/
def numberAccesses (num : Bytes) : List Access :=
  through num (parseNumber num).2 ++
    if deref (integerPart num).2 = 46#8 then [.load (integerPart num).2.tail] else []

/-- `parse_hex4` stops at the first character that is no digit. -/
def hexAccesses : Nat → Bytes → List Access
  | 0, _ => []
  | k + 1, str => .load str :: if (hexDigit (deref str)).isSome then hexAccesses k str.tail else []

/-- The first half of a surrogate pair asks for the second. -/
def highSurrogate (uc : U32) : Bool := decide (0xD800#32 ≤ uc) && decide (uc ≤ 0xDBFF#32)

/-- The `\u` escape, with `ptr` at the letter. -/
def unicodeAccesses (ptr : Bytes) : List Access :=
  let uc := parseHex4 ptr.tail
  hexAccesses 4 ptr.tail ++
    let ptr := ptr.drop 4
    if highSurrogate uc then
      .load (ptr.drop 1) ::
        if deref (ptr.drop 1) = backslash then
          .load (ptr.drop 2) :: if deref (ptr.drop 2) = 117#8 then hexAccesses 4 (ptr.drop 3) else []
        else []
    else []

def unescapeAccesses (ptr : Bytes) : List Access :=
  .load ptr :: if deref ptr = 117#8 then unicodeAccesses ptr else []

/-- The counting loop of `parse_string`; the character behind a backslash is stepped over. -/
def sizeAccesses : Nat → Bytes → List Access
  | 0, _ => []
  | fuel + 1, ptr =>
    .load ptr ::
      if deref ptr = quote ∨ deref ptr = 0#8 then []
      else if deref ptr = backslash then sizeAccesses fuel ptr.tail.tail
      else sizeAccesses fuel ptr.tail

/-- Its count `len`. -/
def stringSize : Nat → Bytes → Nat
  | 0, _ => 0
  | fuel + 1, ptr =>
    if deref ptr = quote ∨ deref ptr = 0#8 then 0
    else if deref ptr = backslash then stringSize fuel ptr.tail.tail + 1
    else stringSize fuel ptr.tail + 1

/-- The copying loop. -/
def copyAccesses : Nat → Bytes → List Access
  | 0, _ => []
  | fuel + 1, ptr =>
    .load ptr ::
      if deref ptr = quote ∨ deref ptr = 0#8 then []
      else if deref ptr ≠ backslash then copyAccesses fuel ptr.tail
      else unescapeAccesses ptr.tail ++ copyAccesses fuel (unescape ptr.tail).2.tail

/-- `parse_string`: `cJSON_malloc(len + 1)`, the copy and its terminator. -/
def stringAccesses (str : Bytes) : List Access :=
  .load str ::
    if deref str ≠ quote then []
    else
      sizeAccesses str.length str.tail ++ copyAccesses str.length str.tail ++
        [.copy ((parseStringLoop str.length str.tail).1.length + 1) (stringSize str.length str.tail + 1)]

/-- The elements of a list; the bound is on their number. -/
def elementsAccesses (element : Bytes → Option (Item × Bytes)) (accesses : Bytes → List Access) :
    Nat → Bytes → List Access
  | 0, _ => []
  | fuel + 1, text =>
    accesses text ++
      match element text with
      | none => []
      | some (_, rest) =>
        skipAccesses rest ++
          if deref (skip rest) = comma then
            skipAccesses (skip rest).tail ++ elementsAccesses element accesses fuel (skip (skip rest).tail)
          else []

def bracketedAccesses (element : Bytes → Option (Item × Bytes)) (accesses : Bytes → List Access) (close : U8)
    (fuel : Nat) (text : Bytes) : List Access :=
  skipAccesses text.tail ++
    if deref (skip text.tail) = close then [] else elementsAccesses element accesses fuel (skip text.tail)

def memberAccesses (accesses : Bytes → List Access) (text : Bytes) : List Access :=
  stringAccesses text ++
    match parseString text with
    | none => []
    | some (_, rest) =>
      skipAccesses rest ++
        if deref (skip rest) = colon then skipAccesses (skip rest).tail ++ accesses (skip (skip rest).tail) else []

/-- The three comparisons at the beginning of `parse_value`. -/
def literalAccesses (text : Bytes) : List Access :=
  compareAccesses (chars ['n', 'u', 'l', 'l']) text ++
    if (chars ['n', 'u', 'l', 'l']).isPrefixOf text then []
    else
      compareAccesses (chars ['f', 'a', 'l', 's', 'e']) text ++
        if (chars ['f', 'a', 'l', 's', 'e']).isPrefixOf text then []
        else compareAccesses (chars ['t', 'r', 'u', 'e']) text

def isLiteral (text : Bytes) : Bool :=
  (chars ['n', 'u', 'l', 'l']).isPrefixOf text || (chars ['f', 'a', 'l', 's', 'e']).isPrefixOf text ||
    (chars ['t', 'r', 'u', 'e']).isPrefixOf text

def valueAccesses : Nat → Bytes → List Access
  | 0, _ => []
  | depth + 1, text =>
    literalAccesses text ++
      if isLiteral text then []
      else if deref text = quote then stringAccesses text
      else if deref text = minus ∨ isDigit (deref text) then numberAccesses text
      else if deref text = openBracket then
        bracketedAccesses value (valueAccesses depth) closeBracket depth text
      else if deref text = openBrace then
        bracketedAccesses (parseMember value) (memberAccesses (valueAccesses depth)) closeBrace depth text
      else []

/-- `cJSON_Parse` on the text at `text`. -/
def parseAccesses (text : Bytes) : List Access :=
  skipAccesses text ++ valueAccesses ((skip text).length + 1) (skip text)

end Parser

/-- The parser stays in front of the tail, and inside its string blocks. -/
def Inside (tail : Bytes) (accesses : List Access) : Prop := ∀ x ∈ accesses, x.inside tail = true

instance (tail : Bytes) (accesses : List Access) : Decidable (Inside tail accesses) :=
  inferInstanceAs (Decidable (∀ x ∈ accesses, x.inside tail = true))

theorem fits_of_inside (tail : Bytes) (x : Access) (h : x.inside tail = true) : x.fits = true := by
  cases x with
  | load p => rfl
  | copy stored room => exact h

section Inside

variable {tail : Bytes}

@[simp] theorem inside_nil : Inside tail [] := by simp [Inside]

@[simp] theorem inside_append (first second : List Access) :
    Inside tail (first ++ second) ↔ Inside tail first ∧ Inside tail second := List.forall_mem_append

@[simp] theorem inside_cons (x : Access) (accesses : List Access) :
    Inside tail (x :: accesses) ↔ x.inside tail = true ∧ Inside tail accesses := List.forall_mem_cons

@[simp] theorem inside_load (p : Bytes) : (Access.load p).inside tail = true ↔ tail.length < p.length := by
  simp [Access.inside]

@[simp] theorem inside_copy (stored room : Nat) : (Access.copy stored room).inside tail = true ↔ stored ≤ room := by
  simp [Access.inside]

/-- A loop is in front of the tail exactly when the byte that stops it is. -/
theorem inside_through (text rest : Bytes) (h : rest.length ≤ text.length) :
    Inside tail (through text rest) ↔ tail.length < rest.length := by
  simp only [Inside, through, List.mem_map, List.mem_range, forall_exists_index, and_imp, forall_apply_eq_imp_iff₂,
    inside_load, List.length_drop]
  constructor
  · intro hall
    have hlast := hall (text.length - rest.length) (Nat.lt_succ_self _)
    omega
  · intro hlt i hi
    omega

theorem inside_skip (text : Bytes) : Inside tail (skipAccesses text) ↔ tail.length < (skip text).length :=
  inside_through text (skip text) (skip_length_le text)

end Inside

end DataReceiveRelay.ParseAccess
