import DataReceiveRelay.Json
import DataReceiveRelay.Registers

/-!
# The configuration table and its file

`g_ConfigFile` has three entries: baud rate, slave address and node timeout.
`Create_JsonFile` writes it as one JSON document, entry by entry;
`Get_JsonFile` parses the file at boot and overwrites entry `j` with the struct
made from element `j` of the array. The file buffer is not zero-terminated, so
the parser sees the file and then whatever memory follows, `tail`.

A name may be NULL. What a read through NULL finds is the string at address
zero, the parameter `nullString`. FatFs returns what was written.
-/

namespace DataReceiveRelay.Config

open Words Runs Registers Json Decimal

/-- A zero-terminated string, without its terminator. -/
abbrev CString := { s : Bytes // 0#8 ∉ s }

/-- What stands at address zero. -/
structure NullString where
  str : CString
  short : str.val.length ≤ 1024

/-- Nothing but a terminator at address zero. -/
def emptyNull : NullString := ⟨⟨[], by decide⟩, by decide⟩

structure ConfigFile where
  name : Option CString
  parameter : U32
  number : U32

/-- `g_ConfigFile` and the memory behind it. -/
abbrev ConfigTable := Nat → ConfigFile

def getConfigFileLength : Nat := 3

def baudrateName : CString :=
  ⟨chars ['M', 'o', 'd', 'b', 'u', 's', '_', 'B', 'a', 'u', 'd', 'r', 'a', 't', 'e'], by decide⟩

def slaveAddressName : CString :=
  ⟨chars ['M', 'o', 'd', 'b', 'u', 's', '_', 'S', 'l', 'a', 'v', 'e', 'A', 'd', 'd', 'r', 'e', 's', 's'], by decide⟩

def nodeOvertimeName : CString :=
  ⟨chars ['N', 'o', 'd', 'e', 'O', 'v', 'e', 'r', 't', 'i', 'm', 'e', 'T', 'i', 'm', 'e'], by decide⟩

/-- The table as the program image holds it. -/
def defaultConfig : ConfigTable
  | 0 => ⟨some baudrateName, 115200#32, 0#32⟩
  | 1 => ⟨some slaveAddressName, 1#32, 1#32⟩
  | 2 => ⟨some nodeOvertimeName, 1#32, 2#32⟩
  | _ => ⟨none, 0#32, 0#32⟩

def nameKey : Bytes := chars ['n', 'a', 'm', 'e']
def parameterKey : Bytes := chars ['p', 'a', 'r', 'a', 'm', 'e', 't', 'e', 'r']
def numberKey : Bytes := chars ['n', 'u', 'm', 'b', 'e', 'r']
def configFileKey : Bytes := chars ['C', 'o', 'n', 'f', 'i', 'g', 'F', 'i', 'l', 'e']

/-- `cJSON_CreateNumber` of an `int`, under a key. -/
def numberItem (key : Bytes) (v : U32) : Item :=
  { type := .number, valuedouble := v.toInt, valueint := doubleToInt v.toInt, string := some key }

def configFileStructToJson (nullString : NullString) (entry : ConfigFile) : Item :=
  { type := .object,
    child := [{ type := .string, valuestring := some (entry.name.getD nullString.str).val, string := some nameKey },
      numberItem parameterKey entry.parameter, numberItem numberKey entry.number] }

/-- The struct starts zeroed and takes over what the object has; the name is not read. -/
def configFileJsonToStruct (json : Item) : ConfigFile :=
  { name := none,
    parameter := ((getObjectItem json parameterKey).map Item.valueint).getD 0#32,
    number := ((getObjectItem json numberKey).map Item.valueint).getD 0#32 }

/-- `vPort_Print_cJSON` of one entry. -/
def printEntry (nullString : NullString) (entry : ConfigFile) : Option Bytes :=
  printValue 2 0 (configFileStructToJson nullString entry)

/-- The header; both spaces and the line feed are written, the terminator is not. -/
def header : Bytes :=
  chars ['\x7b', '"', 'C', 'o', 'n', 'f', 'i', 'g', 'F', 'i', 'l', 'e', '"', ':', '[', ' ', ' ', '\n']

/-- The entries from index `i` on, each followed by its separator. -/
def writeEntries (nullString : NullString) (config : ConfigTable) : Nat → Nat → Option Bytes
  | 0, _ => some []
  | k + 1, i => do
    let string ← printEntry nullString (config i)
    let rest ← writeEntries nullString config k (i + 1)
    pure (string ++ (if i < getConfigFileLength - 1 then [comma, lineFeed] else [lineFeed]) ++ rest)

/-- The bytes `Create_JsonFile` writes, if every print returns. -/
def createJsonFile (nullString : NullString) (config : ConfigTable) : Option Bytes :=
  (writeEntries nullString config getConfigFileLength 0).map fun entries =>
    header ++ entries ++ [closeBracket, lineFeed] ++ [closeBrace, lineFeed]

/-- The assignments to `g_ConfigFile[j]`, in program order. -/
def loadWrites (readJson : Item) : List (Nat × ConfigFile) :=
  readJson.child.flatMap fun item =>
    if item.type ≠ .object then
      item.child.zipIdx.flatMap fun (element, j) =>
        if element.type = .object then [(j, configFileJsonToStruct element)] else []
    else []

/-- The bytes that `f_read` puts into the block; the file size is kept in 16 bits. -/
def fileBlock (bytes : Bytes) : Bytes := bytes.take (bytes.length % 2 ^ 16)

/-- `vPort_Get_cJSON` on the block, with the memory behind it. `rt_malloc(0)` gives a null pointer, which is no
document. -/
def parseBlock (block tail : Bytes) : Option Item := if block = [] then none else parse (block ++ tail)

/-- `Get_JsonFile`: the code and the table. A parse failure leaves through the same exit as success. -/
def getJsonFile (file : Option Bytes) (tail : Bytes) (config : ConfigTable) : U8 × ConfigTable :=
  match file with
  | none => (frNoFile, config)
  | some bytes =>
    match parseBlock (fileBlock bytes) tail with
    | none => (frOk, config)
    | some readJson => (frOk, assign config (loadWrites readJson))

/-- The assignments of `Get_JsonFile` to `g_ConfigFile[j]`. -/
def fileWrites (file : Option Bytes) (tail : Bytes) : List (Nat × ConfigFile) :=
  match file with
  | none => []
  | some bytes =>
    match parseBlock (fileBlock bytes) tail with
    | none => []
    | some readJson => loadWrites readJson

theorem getJsonFile_eq_assign (file : Option Bytes) (tail : Bytes) (config : ConfigTable) :
    (getJsonFile file tail config).2 = assign config (fileWrites file tail) := by
  cases file with
  | none => rfl
  | some bytes =>
    simp only [getJsonFile, fileWrites]
    cases parseBlock (fileBlock bytes) tail with
    | none => rfl
    | some readJson => rfl

section RoundTrip

theorem int_bounds (v : U32) : -2 ^ 31 ≤ v.toInt ∧ v.toInt ≤ 2 ^ 31 - 1 := by
  have hlt := BitVec.toInt_lt (x := v)
  have hle := BitVec.le_toInt (x := v)
  omega

theorem numberItem_eq (key : Bytes) (v : U32) :
    numberItem key v = { type := .number, valuedouble := v.toInt, valueint := v, string := some key } := by
  obtain ⟨hlo, hhi⟩ := int_bounds v
  rw [numberItem, doubleToInt_intCast _ hlo hhi, BitVec.ofInt_toInt]

/-- An `int` element never reaches the floating-point formats. -/
theorem printNumber_int (key : Bytes) (v : U32) : printNumber (numberItem key v) = some (intText v.toInt) := by
  obtain ⟨hlo, hhi⟩ := int_bounds v
  rw [numberItem_eq, printNumber]
  by_cases hz : v.toInt = 0
  · simp only [hz, Int.cast_zero, if_true]
    decide
  · have hne : ((v.toInt : Int) : ℚ) ≠ 0 := by exact_mod_cast hz
    have hle : ((v.toInt : Int) : ℚ) ≤ 2 ^ 31 - 1 := by exact_mod_cast hhi
    have hge : (-2 ^ 31 : ℚ) ≤ v.toInt := by exact_mod_cast hlo
    simp only [if_neg hne, sub_self, abs_zero, hle, hge, and_true]
    norm_num

/-- The quoted text of a key. -/
def keyText (key : Bytes) : Bytes := quote :: (key ++ [quote])

theorem printStringPtr_keys : printStringPtr nameKey = some (keyText nameKey) ∧
    printStringPtr parameterKey = some (keyText parameterKey) ∧
    printStringPtr numberKey = some (keyText numberKey) ∧
    printStringPtr configFileKey = some (keyText configFileKey) := by
  decide

theorem keys_clean : 0#8 ∉ nameKey ∧ 0#8 ∉ parameterKey ∧ 0#8 ∉ numberKey ∧ 0#8 ∉ configFileKey := by
  decide

/-- The members of an entry's object, given the text of its name. -/
def entryMembers (name : CString) (nameText : Bytes) (entry : ConfigFile) : List Member :=
  [⟨nameKey, keyText nameKey, nameText, { type := .string, valuestring := some name.val }⟩,
    ⟨parameterKey, keyText parameterKey, intText entry.parameter.toInt,
      { type := .number, valuedouble := entry.parameter.toInt, valueint := entry.parameter }⟩,
    ⟨numberKey, keyText numberKey, intText entry.number.toInt,
      { type := .number, valuedouble := entry.number.toInt, valueint := entry.number }⟩]

theorem entryMembers_good (name : CString) (nameText : Bytes) (entry : ConfigFile)
    (hn : printStringPtr name.val = some nameText) (depth : Nat) :
    ∀ m ∈ entryMembers name nameText entry, m.Good (parseValue (depth + 1)) := by
  have hint (v : U32) : Reads (parseValue (depth + 1)) (intText v.toInt)
      { type := .number, valuedouble := v.toInt, valueint := v } := by
    have h := reads_int depth v.toInt (int_bounds v).1 (int_bounds v).2
    rwa [BitVec.ofInt_toInt] at h
  obtain ⟨h₁, h₂, h₃, -⟩ := printStringPtr_keys
  obtain ⟨c₁, c₂, c₃, -⟩ := keys_clean
  intro m hm
  simp only [entryMembers, List.mem_cons, List.not_mem_nil, or_false] at hm
  rcases hm with rfl | rfl | rfl
  · exact ⟨c₁, h₁, reads_string depth name.val nameText name.property hn⟩
  · exact ⟨c₂, h₂, hint entry.parameter⟩
  · exact ⟨c₃, h₃, hint entry.number⟩

/-- The text of a printed entry. -/
def entryText (members : List Member) : Bytes :=
  openBrace :: lineFeed :: (membersText 1 members ++ List.replicate 0 tab ++ [closeBrace])

/-- Printing an entry is printing its name and setting the rest around it. -/
theorem printEntry_map (nullString : NullString) (entry : ConfigFile) :
    printEntry nullString entry = (printStringPtr (entry.name.getD nullString.str).val).map fun nameText =>
      entryText (entryMembers (entry.name.getD nullString.str) nameText entry) := by
  obtain ⟨h₁, h₂, h₃, -⟩ := printStringPtr_keys
  have hkey (key : Bytes) (v : U32) : (numberItem key v).string.getD [] = key := rfl
  have htype (key : Bytes) (v : U32) : (numberItem key v).type = .number := rfl
  cases hname : printStringPtr (entry.name.getD nullString.str).val with
  | none => simp [printEntry, printValue, configFileStructToJson, hname, h₁]
  | some nameText =>
    simp [printEntry, printValue, configFileStructToJson, hname, h₁, h₂, h₃, hkey, htype, printNumber_int,
      entryText, entryMembers, membersText]

theorem printEntry_eq (nullString : NullString) (entry : ConfigFile) (out : Bytes)
    (h : printEntry nullString entry = some out) :
    ∃ nameText, printStringPtr (entry.name.getD nullString.str).val = some nameText ∧
      out = entryText (entryMembers (entry.name.getD nullString.str) nameText entry) := by
  rw [printEntry_map] at h
  obtain ⟨nameText, hname, rfl⟩ := Option.map_eq_some_iff.mp h
  exact ⟨nameText, hname, rfl⟩

theorem printStringPtr_defaultNames : printStringPtr baudrateName.val = some (keyText baudrateName.val) ∧
    printStringPtr slaveAddressName.val = some (keyText slaveAddressName.val) ∧
    printStringPtr nodeOvertimeName.val = some (keyText nodeOvertimeName.val) := by
  decide

/-- The names the program image gives the three entries. -/
def DefaultNames (config : ConfigTable) : Prop := ∀ i < getConfigFileLength, (config i).name = (defaultConfig i).name

theorem printEntry_defaultNames (nullString : NullString) (config : ConfigTable) (h : DefaultNames config) (i : Nat)
    (hi : i < getConfigFileLength) : ∃ out, printEntry nullString (config i) = some out := by
  have hprint : ∃ out, printStringPtr ((defaultConfig i).name.getD nullString.str).val = some out := by
    match i with
    | 0 => exact ⟨_, printStringPtr_defaultNames.1⟩
    | 1 => exact ⟨_, printStringPtr_defaultNames.2.1⟩
    | 2 => exact ⟨_, printStringPtr_defaultNames.2.2⟩
    | i + 3 => simp [getConfigFileLength] at hi
  obtain ⟨out, hout⟩ := hprint
  rw [printEntry_map, h i hi, hout]
  exact ⟨_, rfl⟩

theorem printEntry_isSome (nullString : NullString) (entry : ConfigFile) :
    (printEntry nullString entry).isSome = true ↔ Prints (entry.name.getD nullString.str).val := by
  rw [printEntry_map, Option.isSome_map, printStringPtr_isSome _ (entry.name.getD nullString.str).property]

theorem writeEntries_isSome (nullString : NullString) (config : ConfigTable) (k i : Nat) :
    (writeEntries nullString config k i).isSome = true ↔
      ∀ j, i ≤ j → j < i + k → Prints ((config j).name.getD nullString.str).val := by
  induction k generalizing i with
  | zero =>
    simp only [writeEntries, Option.isSome_some, true_iff]
    intro j hlo hhi
    omega
  | succ k ih =>
    have hsplit : (writeEntries nullString config (k + 1) i).isSome = true ↔
        (printEntry nullString (config i)).isSome = true ∧ (writeEntries nullString config k (i + 1)).isSome = true := by
      cases hout : printEntry nullString (config i) <;>
        cases hmore : writeEntries nullString config k (i + 1) <;> simp [writeEntries, hout, hmore]
    rw [hsplit, printEntry_isSome, ih]
    constructor
    · rintro ⟨hfirst, hrest⟩ j hlo hhi
      by_cases hj : j = i
      · rw [hj]
        exact hfirst
      · exact hrest j (by omega) (by omega)
    · intro h
      exact ⟨h i (Nat.le_refl i) (by omega), fun j hlo hhi => h j (by omega) (by omega)⟩

/-- The save returns exactly when every name can be printed. -/
theorem createJsonFile_isSome (nullString : NullString) (config : ConfigTable) :
    (createJsonFile nullString config).isSome = true ↔
      ∀ i < getConfigFileLength, Prints ((config i).name.getD nullString.str).val := by
  rw [createJsonFile, Option.isSome_map, writeEntries_isSome]
  constructor
  · intro h i hi
    exact h i (Nat.zero_le i) (by omega)
  · intro h i _ hi
    exact h i (by omega)

/-- A table with its own names can be saved. -/
theorem createJsonFile_defaultNames (nullString : NullString) (config : ConfigTable) (h : DefaultNames config) :
    ∃ file, createJsonFile nullString config = some file := by
  obtain ⟨out₀, h₀⟩ := printEntry_defaultNames nullString config h 0 (by decide)
  obtain ⟨out₁, h₁⟩ := printEntry_defaultNames nullString config h 1 (by decide)
  obtain ⟨out₂, h₂⟩ := printEntry_defaultNames nullString config h 2 (by decide)
  simp [createJsonFile, getConfigFileLength, writeEntries, h₀, h₁, h₂]

/-- An entry as its object is read back. -/
def entryItem (nullString : NullString) (entry : ConfigFile) : Item :=
  { type := .object, child := memberItems (entryMembers (entry.name.getD nullString.str) [] entry) }

theorem memberItems_entry (name : CString) (nameText : Bytes) (entry : ConfigFile) :
    memberItems (entryMembers name nameText entry) = memberItems (entryMembers name [] entry) := rfl

theorem reads_entry (nullString : NullString) (entry : ConfigFile) (out : Bytes)
    (h : printEntry nullString entry = some out) (depth : Nat) :
    Reads (parseValue (depth + 2)) out (entryItem nullString entry) := by
  obtain ⟨nameText, hname, rfl⟩ := printEntry_eq nullString entry out h
  rw [entryItem, ← memberItems_entry _ nameText]
  exact reads_object (depth + 1) 0 _ (entryMembers_good _ nameText entry hname depth) (by simp [entryMembers])

theorem writeEntries_succ (nullString : NullString) (config : ConfigTable) (k i : Nat) (entries : Bytes)
    (h : writeEntries nullString config (k + 1) i = some entries) :
    ∃ out more, printEntry nullString (config i) = some out ∧ writeEntries nullString config k (i + 1) = some more ∧
      entries = out ++ ((if i < getConfigFileLength - 1 then [comma, lineFeed] else [lineFeed]) ++ more) := by
  cases hout : printEntry nullString (config i) with
  | none => simp [writeEntries, hout] at h
  | some out =>
    cases hmore : writeEntries nullString config k (i + 1) with
    | none => simp [writeEntries, hout, hmore] at h
    | some more => exact ⟨out, more, rfl, rfl, by simpa [writeEntries, hout, hmore] using h.symm⟩

theorem writeEntries_solid (nullString : NullString) (config : ConfigTable) (k i : Nat) (entries rest : Bytes)
    (h : writeEntries nullString config (k + 1) i = some entries) : deref (entries ++ rest) = openBrace := by
  obtain ⟨out, more, hout, -, rfl⟩ := writeEntries_succ nullString config k i entries h
  obtain ⟨nameText, -, rfl⟩ := printEntry_eq nullString (config i) out hout
  rfl

/-- The array body is read entry by entry. -/
theorem parseElements_entries (nullString : NullString) (config : ConfigTable) (depth k i : Nat)
    (hk : i + (k + 1) = getConfigFileLength) (entries : Bytes)
    (h : writeEntries nullString config (k + 1) i = some entries) (fuel : Nat) (hf : k < fuel) (rest : Bytes) :
    parseElements (parseValue (depth + 2)) fuel (entries ++ closeBracket :: rest) =
      some ((List.range' i (k + 1)).map fun j => entryItem nullString (config j), closeBracket :: rest) := by
  induction k generalizing i entries fuel with
  | zero =>
    obtain ⟨f, rfl⟩ : ∃ f, fuel = f + 1 := ⟨fuel - 1, by omega⟩
    obtain ⟨out, more, hout, hmore, rfl⟩ := writeEntries_succ nullString config 0 i entries h
    obtain rfl : [] = more := by simpa [writeEntries] using hmore
    have hread := (reads_entry nullString (config i) out hout depth).reads (lineFeed :: closeBracket :: rest)
      (by rw [deref_cons]; decide)
    have hskip : skip (lineFeed :: closeBracket :: rest) = closeBracket :: rest := by
      rw [skip_space lineFeed _ (by decide) (by decide), skip_solid _ (by rw [deref_cons]; decide)]
    have hone := parseElements_last (parseValue (depth + 2)) f _ _ _ hread (by rw [hskip, deref_cons]; decide)
    rw [hskip] at hone
    have hlast : ¬i < getConfigFileLength - 1 := by omega
    simpa [hlast] using hone
  | succ k ih =>
    obtain ⟨f, rfl⟩ : ∃ f, fuel = f + 1 := ⟨fuel - 1, by omega⟩
    obtain ⟨out, more, hout, hmore, rfl⟩ := writeEntries_succ nullString config (k + 1) i entries h
    have hread := (reads_entry nullString (config i) out hout depth).reads
      (comma :: lineFeed :: (more ++ closeBracket :: rest)) (by rw [deref_cons]; decide)
    have hskip : skip (lineFeed :: (more ++ closeBracket :: rest)) = more ++ closeBracket :: rest := by
      rw [skip_space lineFeed _ (by decide) (by decide)]
      exact skip_solid _ (by rw [writeEntries_solid nullString config k (i + 1) more _ hmore]; decide)
    have htail := ih (i + 1) (by omega) more hmore f (by omega)
    rw [← hskip] at htail
    have hall := parseElements_more (parseValue (depth + 2)) f _ _ _ _ _ _ hread
      (skip_solid _ (by rw [deref_cons]; decide)) htail
    have hsep : i < getConfigFileLength - 1 := by omega
    rw [List.range'_succ, List.map_cons, ← hall]
    simp [hsep]

/-- The document that a written file parses to. -/
def fileItem (nullString : NullString) (config : ConfigTable) : Item :=
  { type := .object,
    child := [{ type := .array, string := some configFileKey,
                child := (List.range getConfigFileLength).map fun j => entryItem nullString (config j) }] }

/-- The array of the file, with at least the end of the document behind it. -/
theorem parseValue_array (nullString : NullString) (config : ConfigTable) (depth : Nat) (entries rest : Bytes)
    (h : writeEntries nullString config getConfigFileLength 0 = some entries) (hr : 2 ≤ rest.length) :
    parseValue (depth + 3) (chars ['[', ' ', ' ', '\n'] ++ (entries ++ closeBracket :: rest)) =
      some ({ type := .array,
              child := (List.range getConfigFileLength).map fun j => entryItem nullString (config j) }, rest) := by
  have hsolid := writeEntries_solid nullString config 2 0 entries (closeBracket :: rest) h
  have hskip : skip (chars [' ', ' ', '\n'] ++ (entries ++ closeBracket :: rest)) =
      entries ++ closeBracket :: rest := by
    have hspaces : chars [' ', ' ', '\n'] = [32#8, 32#8, 10#8] := by decide
    rw [hspaces]
    simp only [List.cons_append, List.nil_append]
    rw [skip_space _ _ (by decide) (by decide), skip_space _ _ (by decide) (by decide),
      skip_space _ _ (by decide) (by decide), skip_solid _ (by rw [hsolid]; decide)]
  have hread := parseElements_entries nullString config depth 2 0 rfl entries h
    ((entries ++ closeBracket :: rest).length + 1)
    (by simp only [List.length_append, List.length_cons]; omega) rest
  have hstart : chars ['[', ' ', ' ', '\n'] = openBracket :: chars [' ', ' ', '\n'] := by decide
  have hopen : ¬openBrace = closeBracket := by decide
  have hrange : List.range' 0 (2 + 1) = List.range getConfigFileLength := by decide
  rw [hstart, List.cons_append, parseValue_noKeyword _ _ (by rw [NoKeyword, deref_cons]; decide), deref_cons]
  simp only [parseArray, List.tail_cons, hskip, hsolid, if_neg hopen, hread, deref_cons, if_true, hrange]
  rfl

/-- A written file is one complete document: the reader stops in front of its last line feed, whatever
stands behind the file in memory. -/
theorem parseValue_createJsonFile (nullString : NullString) (config : ConfigTable) (file tail : Bytes)
    (h : createJsonFile nullString config = some file) :
    parseValue ((file ++ tail).length + 1) (skip (file ++ tail)) =
      some (fileItem nullString config, lineFeed :: tail) := by
  obtain ⟨entries, hentries, rfl⟩ := Option.map_eq_some_iff.mp h
  have hsplit : header ++ entries ++ [closeBracket, lineFeed] ++ [closeBrace, lineFeed] ++ tail =
      openBrace :: (keyText configFileKey ++ (colon :: (chars ['[', ' ', ' ', '\n'] ++
        (entries ++ closeBracket :: lineFeed :: closeBrace :: lineFeed :: tail)))) := by
    have hheader : header = openBrace :: (keyText configFileKey ++ (colon :: chars ['[', ' ', ' ', '\n'])) := by
      decide
    rw [hheader]
    simp
  rw [hsplit]
  generalize hbody : chars ['[', ' ', ' ', '\n'] ++
    (entries ++ closeBracket :: lineFeed :: closeBrace :: lineFeed :: tail) = body
  have harray (depth : Nat) := parseValue_array nullString config depth entries
    (lineFeed :: closeBrace :: lineFeed :: tail) hentries (by simp)
  rw [hbody] at harray
  have hfirst : deref body = openBracket := by
    rw [← hbody]
    rfl
  obtain ⟨-, -, -, hkey⟩ := printStringPtr_keys
  obtain ⟨-, -, -, hclean⟩ := keys_clean
  have hstring := parseString_print configFileKey _ hclean hkey (colon :: body)
  have hend : skip (lineFeed :: closeBrace :: lineFeed :: tail) = closeBrace :: lineFeed :: tail := by
    rw [skip_space lineFeed _ (by decide) (by decide), skip_solid _ (by rw [deref_cons]; decide)]
  have hmember (depth : Nat) : parseMember (parseValue (depth + 3)) (keyText configFileKey ++ (colon :: body)) =
      some ({ type := .array, string := some configFileKey,
              child := (List.range getConfigFileLength).map fun j => entryItem nullString (config j) },
        lineFeed :: closeBrace :: lineFeed :: tail) := by
    have hcolon : skip (colon :: body) = colon :: body := skip_solid _ (by rw [deref_cons]; decide)
    have hvalue : skip body = body := skip_solid _ (by rw [hfirst]; decide)
    simp only [parseMember, hstring, hcolon, deref_cons, ne_eq, not_true_eq_false, if_false, List.tail_cons, hvalue,
      harray]
  have hkeySolid : deref (keyText configFileKey ++ (colon :: body)) = quote := rfl
  have hkeySkip := skip_solid (keyText configFileKey ++ (colon :: body)) (by rw [hkeySolid]; decide)
  have hbrace : ¬quote = closeBrace := by decide
  have hobject (depth : Nat) :
      parseObject (parseValue (depth + 3)) (openBrace :: (keyText configFileKey ++ (colon :: body))) =
        some (fileItem nullString config, lineFeed :: tail) := by
    have hone := parseElements_last (parseMember (parseValue (depth + 3)))
      (keyText configFileKey ++ (colon :: body)).length _ _ _ (hmember depth) (by rw [hend, deref_cons]; decide)
    rw [hend] at hone
    simp only [parseObject, List.tail_cons, hkeySkip, hkeySolid, if_neg hbrace, hone, deref_cons, if_true, fileItem]
  obtain ⟨depth, hdepth⟩ : ∃ d, (openBrace :: (keyText configFileKey ++ (colon :: body))).length + 1 = d + 4 :=
    ⟨(keyText configFileKey ++ body).length - 1, by simp [keyText]; omega⟩
  rw [hdepth, skip_solid _ (by rw [deref_cons]; decide),
    parseValue_noKeyword _ _ (by rw [NoKeyword, deref_cons]; decide), deref_cons, ← hobject depth]
  rfl

theorem parse_createJsonFile (nullString : NullString) (config : ConfigTable) (file tail : Bytes)
    (h : createJsonFile nullString config = some file) :
    parse (file ++ tail) = some (fileItem nullString config) := by
  rw [parse, parseValue_createJsonFile nullString config file tail h]
  rfl

/-- Loading keeps the numbers of an entry and drops its name. -/
def reloaded (entry : ConfigFile) : ConfigFile := { entry with name := none }

theorem configFileJsonToStruct_entryItem (nullString : NullString) (entry : ConfigFile) :
    configFileJsonToStruct (entryItem nullString entry) = reloaded entry := by
  have h₁ : strcasecmp nameKey parameterKey = false := by decide
  have h₂ : strcasecmp nameKey numberKey = false := by decide
  have h₃ : strcasecmp parameterKey parameterKey = true := by decide
  have h₄ : strcasecmp parameterKey numberKey = false := by decide
  have h₅ : strcasecmp numberKey numberKey = true := by decide
  simp [configFileJsonToStruct, getObjectItem, entryItem, memberItems, entryMembers, h₁, h₂, h₃, h₄, h₅, reloaded]

theorem loadWrites_fileItem (nullString : NullString) (config : ConfigTable) :
    loadWrites (fileItem nullString config) =
      [(0, reloaded (config 0)), (1, reloaded (config 1)), (2, reloaded (config 2))] := by
  have hrange : List.range getConfigFileLength = [0, 1, 2] := by decide
  have htype (entry : ConfigFile) : (entryItem nullString entry).type = .object := rfl
  simp [loadWrites, fileItem, hrange, htype, configFileJsonToStruct_entryItem]

end RoundTrip

section Length

/-- Names of ordinary length, where there are names. -/
def ShortNames (config : ConfigTable) : Prop :=
  ∀ i < getConfigFileLength, ∀ name ∈ (config i).name, name.val.length ≤ 1024

theorem shortNames_of_defaultNames (config : ConfigTable) (h : DefaultNames config) : ShortNames config := by
  intro i hi name hname
  rw [h i hi] at hname
  match i with
  | 0 =>
    obtain rfl : baudrateName = name := by simpa [defaultConfig] using hname
    decide
  | 1 =>
    obtain rfl : slaveAddressName = name := by simpa [defaultConfig] using hname
    decide
  | 2 =>
    obtain rfl : nodeOvertimeName = name := by simpa [defaultConfig] using hname
    decide
  | i + 3 => simp [getConfigFileLength] at hi

theorem printEntry_length (nullString : NullString) (entry : ConfigFile) (out : Bytes)
    (hs : ∀ name ∈ entry.name, name.val.length ≤ 1024) (h : printEntry nullString entry = some out) :
    out.length ≤ 6300 := by
  obtain ⟨nameText, hname, rfl⟩ := printEntry_eq nullString entry out h
  have hshort : (entry.name.getD nullString.str).val.length ≤ 1024 := by
    cases hn : entry.name with
    | none => exact nullString.short
    | some name => exact hs name (by simp [hn])
  have hlen := printStringPtr_length _ nameText (entry.name.getD nullString.str).property hname
  have hp := intText_length entry.parameter.toInt
  have hk := intText_length entry.number.toInt
  have h₁ : (keyText nameKey).length = 6 := by decide
  have h₂ : (keyText parameterKey).length = 11 := by decide
  have h₃ : (keyText numberKey).length = 8 := by decide
  simp only [entryText, membersText, entryMembers, List.map_cons, List.map_nil, joinMembers, List.length_cons,
    List.length_append, List.length_replicate, List.length_nil, h₁, h₂, h₃, reduceCtorEq, if_false, if_true]
  omega

theorem writeEntries_length (nullString : NullString) (config : ConfigTable) (hs : ShortNames config) (k i : Nat)
    (hk : i + k ≤ getConfigFileLength) (entries : Bytes) (h : writeEntries nullString config k i = some entries) :
    entries.length ≤ 6302 * k := by
  induction k generalizing i entries with
  | zero =>
    obtain rfl : [] = entries := by simpa [writeEntries] using h
    simp
  | succ k ih =>
    obtain ⟨out, more, hout, hmore, rfl⟩ := writeEntries_succ nullString config k i entries h
    have hone := printEntry_length nullString (config i) out (hs i (by omega)) hout
    have hrest := ih (i + 1) (by omega) more hmore
    rw [List.length_append, List.length_append]
    split <;> simp only [List.length_cons, List.length_nil] <;> omega

/-- The file is far below the 16-bit size the loader computes with. -/
theorem createJsonFile_length (nullString : NullString) (config : ConfigTable) (hs : ShortNames config)
    (file : Bytes) (h : createJsonFile nullString config = some file) : file.length < 2 ^ 16 := by
  obtain ⟨entries, hentries, rfl⟩ := Option.map_eq_some_iff.mp h
  have hlen := writeEntries_length nullString config hs _ 0 (by omega) entries hentries
  have hheader : header.length = 18 := by decide
  simp only [List.length_append, List.length_cons, List.length_nil, hheader, getConfigFileLength] at hlen ⊢
  omega

theorem createJsonFile_ne_nil (nullString : NullString) (config : ConfigTable) (file : Bytes)
    (h : createJsonFile nullString config = some file) : file ≠ [] := by
  rintro rfl
  obtain ⟨entries, -, hfile⟩ := Option.map_eq_some_iff.mp h
  have hlen := congrArg List.length hfile
  simp only [List.length_append, List.length_cons, List.length_nil] at hlen
  omega

/-- Loading a written file: the code is 0 and every entry has its parameter and number back. -/
theorem getJsonFile_createJsonFile (nullString : NullString) (config other : ConfigTable) (file tail : Bytes)
    (hs : ShortNames config) (h : createJsonFile nullString config = some file) :
    getJsonFile (some file) tail other =
      (frOk, fun i => if i < getConfigFileLength then reloaded (config i) else other i) := by
  have hlen := createJsonFile_length nullString config hs file h
  have hassign : assign other [(0, reloaded (config 0)), (1, reloaded (config 1)), (2, reloaded (config 2))] =
      fun i => if i < getConfigFileLength then reloaded (config i) else other i := by
    funext i
    match i with
    | 0 => rfl
    | 1 => rfl
    | 2 => rfl
    | i + 3 => simp [getConfigFileLength]
  have hblock : fileBlock file = file := by rw [fileBlock, Nat.mod_eq_of_lt hlen, List.take_length]
  rw [getJsonFile, hblock, parseBlock, if_neg (createJsonFile_ne_nil nullString config file h),
    parse_createJsonFile nullString config file tail h]
  simp only [loadWrites_fileItem, hassign]

/-- The table of the program image with other parameters. -/
def withParameters (parameters : Nat → U32) : ConfigTable :=
  fun i => { defaultConfig i with parameter := parameters i }

/-- Any parameters come back from the file, which is one whole document of its own. -/
theorem parameters_round_trip (nullString : NullString) (parameters : Nat → U32) :
    ∃ file, createJsonFile nullString (withParameters parameters) = some file ∧
      (∃ item, ∀ tail, parseValue ((file ++ tail).length + 1) (skip (file ++ tail)) = some (item, lineFeed :: tail)) ∧
      ∀ tail other, (getJsonFile (some file) tail other).1 = 0#8 ∧ ∀ i < 3,
        ((getJsonFile (some file) tail other).2 i).parameter = parameters i ∧
          ((getJsonFile (some file) tail other).2 i).number = (defaultConfig i).number := by
  have hnames : DefaultNames (withParameters parameters) := fun i hi => rfl
  obtain ⟨file, hfile⟩ := createJsonFile_defaultNames nullString (withParameters parameters) hnames
  refine ⟨file, hfile, ⟨_, fun tail => parseValue_createJsonFile nullString _ file tail hfile⟩, ?_⟩
  intro tail other
  rw [getJsonFile_createJsonFile nullString _ other file tail (shortNames_of_defaultNames _ hnames) hfile]
  refine ⟨rfl, ?_⟩
  intro i hi
  simp only [getConfigFileLength, hi, if_true]
  exact ⟨rfl, rfl⟩

end Length

end DataReceiveRelay.Config
