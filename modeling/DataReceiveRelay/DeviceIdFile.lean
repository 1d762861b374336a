import DataReceiveRelay.Decimal
import DataReceiveRelay.Registers

/-!
# The device-ID file

`SaveDeviceIdFile` prints one line `number,id,` per slot into `/DeviceId.csv`;
`ReadDeviceIdFile` reads it back at boot with `f_gets` and `strtok`. A file is
the list of its bytes: FatFs returns what was written, without line-end
conversion, and the allocation of the line buffer succeeds.

`StrToInt` of a missing token reads address zero; its result is the parameter
`nullInt`. `tokens` records every argument `StrToInt` receives, `none` for NULL.
-/

namespace DataReceiveRelay.DeviceIdFile

open Words Runs Registers Decimal

section Writer

/-- One of the ten iterations left of `IntToStr`, on the caller's buffer. -/
def intToStrLoop : Nat → Bytes → U32 → U32 → Nat → Nat → Bytes
  | 0, str, _, _, _, _ => str
  | i + 1, str, intnum, divider, pos, status =>
    let c : U8 := (intnum / divider + 48#32).setWidth 8
    let str := str.set pos c
    -- A leading zero is overwritten by the next digit.
    if c = 48#8 ∧ status = 0 then intToStrLoop i str (intnum % divider) (divider / 10#32) 0 status
    else intToStrLoop i str (intnum % divider) (divider / 10#32) (pos + 1) (status + 1)

def intToStr (str : Bytes) (intnum : U32) : Bytes := intToStrLoop 10 str intnum 1000000000#32 0 0

/-- `memset(str, 0, strlen(str))`. -/
def clearString (str : Bytes) : Bytes :=
  List.replicate (cString str).length 0#8 ++ str.drop (cString str).length

/-- One line of `SaveDeviceIdFile`: the buffer afterwards and the bytes written. -/
def saveDeviceIdRow (str : Bytes) (regs : Table) (i : Nat) : Bytes × Bytes :=
  let str₁ := intToStr str (BitVec.ofNat 32 i)
  let str₂ := intToStr (clearString str₁) (idAt regs i)
  (clearString str₂, cString str₁ ++ [comma] ++ (cString str₂ ++ [comma, lineFeed]))

/-- The print buffer `uint8_t str[1024] = {0}`. -/
def printBuffer : Bytes := List.replicate 1024 0#8

/-- All 256 lines; the first component is the print buffer. -/
def saveDeviceIdRows (regs : Table) (count : Nat) : Bytes × Bytes :=
  (List.range count).foldl
    (fun (str, file) i => let (str, row) := saveDeviceIdRow str regs i; (str, file ++ row)) (printBuffer, [])

/-- The contents of `/DeviceId.csv` after a successful save. -/
def saveDeviceIdFile (regs : Table) : Bytes := (saveDeviceIdRows regs nodeCount).2

/-- The line of slot `i` with device ID `id`. -/
def rowText (i : Nat) (id : U32) : Bytes :=
  text 10 i ++ [comma] ++ (text 10 id.toNat ++ [comma, lineFeed])

theorem set_length_append (pre : Bytes) (x y : U8) (rest : Bytes) :
    (pre ++ x :: rest).set pre.length y = pre ++ y :: rest := by
  rw [List.set_append_right _ _ (Nat.le_refl _)]
  simp

theorem digit_ascii (d : U32) (h : d.toNat < 10) : (d + 48#32).setWidth 8 = ascii d.toNat := by
  apply BitVec.eq_of_toNat_eq
  rw [ascii_toNat _ h, BitVec.toNat_setWidth, BitVec.toNat_add]
  simp only [BitVec.toNat_ofNat]
  omega

/-- What one iteration computes when the divider is the weight of the next digit. -/
theorem intToStr_digit (k : Nat) (n divider : U32) (hn : n.toNat < 10 ^ (k + 1))
    (hd : divider.toNat = 10 ^ k) :
    n.toNat / 10 ^ k < 10 ∧ (n / divider + 48#32).setWidth 8 = ascii (n.toNat / 10 ^ k) ∧
      (n % divider).toNat = n.toNat % 10 ^ k ∧ (k ≠ 0 → (divider / 10#32).toNat = 10 ^ (k - 1)) := by
  have hq : (n / divider).toNat = n.toNat / 10 ^ k := by rw [BitVec.toNat_udiv, hd]
  have hlt : n.toNat / 10 ^ k < 10 := by
    rw [Nat.div_lt_iff_lt_mul (by positivity)]
    rw [pow_succ] at hn
    omega
  refine ⟨hlt, ?_, by rw [BitVec.toNat_umod, hd], ?_⟩
  · rw [digit_ascii _ (by rw [hq]; exact hlt), hq]
  · intro hk
    obtain ⟨j, rfl⟩ : ∃ j, k = j + 1 := ⟨k - 1, by omega⟩
    rw [BitVec.toNat_udiv, hd, pow_succ]
    simp

/-- Past the first significant digit every digit is appended. -/
theorem intToStrLoop_tail (k : Nat) (pre : Bytes) (room status : Nat) (n divider : U32)
    (hn : n.toNat < 10 ^ k) (hd : k ≠ 0 → divider.toNat = 10 ^ (k - 1)) (hk : k ≤ room) :
    intToStrLoop k (pre ++ List.replicate room 0#8) n divider pre.length (status + 1) =
      pre ++ (fixed k n.toNat).map ascii ++ List.replicate (room - k) 0#8 := by
  induction k generalizing pre room status n divider with
  | zero => simp [intToStrLoop, fixed]
  | succ k ih =>
    obtain ⟨room, rfl⟩ : ∃ r, room = r + 1 := ⟨room - 1, by omega⟩
    obtain ⟨-, hc, hmod, hnext⟩ := intToStr_digit k n divider hn (hd (by omega))
    rw [intToStrLoop, hc]
    simp only [Nat.add_eq_zero_iff, one_ne_zero, and_false, if_false, List.replicate_succ,
      set_length_append]
    have happ : pre ++ ascii (n.toNat / 10 ^ k) :: List.replicate room 0#8 =
        (pre ++ [ascii (n.toNat / 10 ^ k)]) ++ List.replicate room 0#8 := by simp
    have hlen : pre.length + 1 = (pre ++ [ascii (n.toNat / 10 ^ k)]).length := by simp
    rw [happ, hlen, ih _ room (status + 1) _ _ (by rw [hmod]; exact Nat.mod_lt _ (by positivity)) hnext
      (by omega), hmod]
    simp [fixed]

theorem ascii_eq_zero_iff (d : Nat) (h : d < 10) : ascii d = 48#8 ↔ d = 0 := by
  rw [← BitVec.toNat_inj, ascii_toNat d h]
  simp

/-- Leading zeros keep landing in the first cell, so only the last one can stay. -/
theorem intToStrLoop_head (k : Nat) (x : U8) (room : Nat) (n divider : U32)
    (hn : n.toNat < 10 ^ (k + 1)) (hd : divider.toNat = 10 ^ k) (hk : k ≤ room) :
    intToStrLoop (k + 1) (x :: List.replicate room 0#8) n divider 0 0 =
      text (k + 1) n.toNat ++ List.replicate (room + 1 - (text (k + 1) n.toNat).length) 0#8 := by
  induction k generalizing x n divider with
  | zero =>
    obtain ⟨hlt, hc, -, -⟩ := intToStr_digit 0 n divider hn hd
    have htext : text 1 n.toNat = [ascii n.toNat] := by simp [text, decimal, fixed, trim]
    simp only [pow_zero, Nat.div_one] at hc
    rw [intToStrLoop, hc, htext]
    simp [intToStrLoop]
  | succ k ih =>
    obtain ⟨hlt, hc, hmod, hnext⟩ := intToStr_digit (k + 1) n divider hn hd
    obtain ⟨d, rest, hrest⟩ : ∃ d rest, fixed (k + 1) (n.toNat % 10 ^ (k + 1)) = d :: rest := ⟨_, _, rfl⟩
    rw [intToStrLoop, hc]
    by_cases hz : n.toNat / 10 ^ (k + 1) = 0
    · have hsmall : n.toNat % 10 ^ (k + 1) = n.toNat :=
        Nat.mod_eq_of_lt ((Nat.div_eq_zero_iff_lt (by positivity)).mp hz)
      have htext : text (k + 2) n.toNat = text (k + 1) n.toNat := by
        rw [hsmall] at hrest
        simp [text, decimal, fixed, hz, hsmall] at hrest ⊢
        rw [trim, if_pos rfl]
      rw [if_pos ⟨(ascii_eq_zero_iff _ hlt).mpr hz, rfl⟩, List.set_cons_zero, htext,
        ih _ (n % divider) _ (by rw [hmod]; exact Nat.mod_lt _ (by positivity)) (by simpa using hnext (by omega))
          (by omega), hmod, hsmall]
    · have htext : text (k + 2) n.toNat = (fixed (k + 2) n.toNat).map ascii := by
        rw [text, decimal, fixed, hrest, trim, if_neg hz]
      have htail := intToStrLoop_tail (k + 1) [ascii (n.toNat / 10 ^ (k + 1))] room 0 (n % divider)
        (divider / 10#32) (by rw [hmod]; exact Nat.mod_lt _ (by positivity)) hnext (by omega)
      rw [if_neg (fun h => hz ((ascii_eq_zero_iff _ hlt).mp h.1)), List.set_cons_zero, htext]
      simp only [List.length_cons, List.length_nil, List.cons_append, List.nil_append] at htail
      rw [htail, hmod]
      simp [fixed]

/-- On a zeroed buffer `IntToStr` leaves the canonical numeral and nothing else. -/
theorem intToStr_zeroed (size : Nat) (n : U32) (hs : 10 ≤ size) :
    intToStr (List.replicate size 0#8) n =
      text 10 n.toNat ++ List.replicate (size - (text 10 n.toNat).length) 0#8 := by
  obtain ⟨room, rfl⟩ : ∃ r, size = r + 1 := ⟨size - 1, by omega⟩
  have := n.isLt
  exact intToStrLoop_head 9 0#8 room n 1000000000#32 (by omega) (by decide) (by omega)

theorem u32_lt (n : U32) : n.toNat < 10 ^ 10 := by
  have := n.isLt
  omega

theorem cString_text (n : U32) (rest : Nat) :
    cString (text 10 n.toNat ++ List.replicate rest 0#8) = text 10 n.toNat := by
  have hne : ∀ c ∈ text 10 n.toNat, (c != 0#8) = true := by
    intro c hc
    have := text_digits 10 _ (u32_lt n) c hc
    rw [bne_iff_ne, ne_eq, ← BitVec.toNat_inj]
    simp
    omega
  rw [cString, List.takeWhile_append_of_pos hne]
  cases rest <;> simp [List.replicate_succ]

theorem clearString_text (n : U32) (size : Nat) (hs : 10 ≤ size) :
    clearString (text 10 n.toNat ++ List.replicate (size - (text 10 n.toNat).length) 0#8) =
      List.replicate size 0#8 := by
  have hle := text_length_le 10 n.toNat
  rw [clearString, cString_text, List.drop_left, List.replicate_append_replicate]
  congr 1
  omega

/-- A line is printed from a clean buffer and leaves it clean. -/
theorem saveDeviceIdRow_eq (regs : Table) (i : Nat) (hi : i < 2 ^ 32) :
    saveDeviceIdRow printBuffer regs i = (printBuffer, rowText i (idAt regs i)) := by
  have hnat : (BitVec.ofNat 32 i).toNat = i := by
    simp only [BitVec.toNat_ofNat]
    omega
  have h₁ := intToStr_zeroed 1024 (BitVec.ofNat 32 i) (by omega)
  have h₂ := intToStr_zeroed 1024 (idAt regs i) (by omega)
  have hclear := clearString_text (BitVec.ofNat 32 i) 1024 (by omega)
  have hprint := cString_text (BitVec.ofNat 32 i)
  rw [hnat] at h₁ hclear hprint
  simp only [saveDeviceIdRow, printBuffer, h₁, hclear, h₂, clearString_text _ 1024 (by omega), hprint,
    cString_text, rowText]

/-- The text of some slots' lines, in the order given. -/
def linesText (ids : Nat → U32) (slots : List Nat) : Bytes := slots.flatMap fun i => rowText i (ids i)

theorem saveDeviceIdRows_eq (regs : Table) (count : Nat) (hc : count ≤ 2 ^ 32) :
    saveDeviceIdRows regs count = (printBuffer, linesText (idAt regs) (List.range count)) := by
  induction count with
  | zero => rfl
  | succ count ih =>
    have hprev := ih (by omega)
    rw [saveDeviceIdRows] at hprev ⊢
    rw [List.range_succ, List.foldl_append, hprev]
    simp [saveDeviceIdRow_eq regs count (by omega), linesText]

theorem linesText_succ (ids : Nat → U32) (count : Nat) :
    linesText ids (List.range (count + 1)) = linesText ids (List.range count) ++ rowText count (ids count) := by
  simp [linesText, List.range_succ]

theorem linesText_congr (ids ids' : Nat → U32) (count : Nat) (h : ∀ i < count, ids i = ids' i) :
    linesText ids (List.range count) = linesText ids' (List.range count) := by
  rw [linesText, linesText, List.flatMap_def, List.flatMap_def]
  congr 1
  apply List.map_congr_left
  intro i hi
  rw [h i (List.mem_range.mp hi)]

/-- The file is the canonical text of the 256 IDs. -/
theorem saveDeviceIdFile_eq (regs : Table) :
    saveDeviceIdFile regs = linesText (idAt regs) (List.range nodeCount) := by
  rw [saveDeviceIdFile, saveDeviceIdRows_eq regs nodeCount (by decide)]

theorem saveDeviceIdFile_congr (regs regs' : Table) (h : ∀ i < nodeCount, idAt regs i = idAt regs' i) :
    saveDeviceIdFile regs = saveDeviceIdFile regs' := by
  rw [saveDeviceIdFile_eq, saveDeviceIdFile_eq, linesText_congr _ _ nodeCount h]

end Writer

section Reader

/-- The loop of `f_gets` with room for `budget` more characters: the line and what is left of the file. -/
def fGetsLoop : Nat → Bytes → Bytes × Bytes
  | 0, rest => ([], rest)
  | _ + 1, [] => ([], [])
  | budget + 1, c :: rest =>
    if c = lineFeed then ([c], rest)
    else
      let (line, rest) := fGetsLoop budget rest
      (c :: line, rest)

/-- `f_gets` into a buffer of `len` bytes; `none` is the NULL returned when nothing was read. -/
def fGets (len : Nat) (rest : Bytes) : Option (Bytes × Bytes) :=
  match fGetsLoop (len - 1) rest with
  | ([], _) => none
  | (c :: line, rest) => some (c :: line, rest)

/-- One call of `strtok` with delimiter ',': the token and the string after it. -/
def strtok (s : Bytes) : Option (Bytes × Bytes) :=
  match s.dropWhile (· == comma) with
  | [] => none
  | c :: s => some ((c :: s).takeWhile (· != comma), ((c :: s).dropWhile (· != comma)).tail)

def strToIntLoop : Bytes → U32 → U32
  | [], m => m
  | c :: str, m =>
    if c < 48#8 ∨ 57#8 < c then 0#32 else strToIntLoop str (m * 10#32 + (c.setWidth 32 - 48#32))

def strToInt (str : Bytes) : U32 := strToIntLoop str 0#32

/-- Registers and the log of `StrToInt` arguments during `ReadDeviceIdFile`. -/
structure Reading where
  regs : Table
  tokens : List (Option Bytes)

/-- Store an ID in the two registers of slot `num`. -/
def storeId (num : Nat) (id : U32) : List (Nat × U16) :=
  [(nodeDeviceIdFirstAddress + 2 * num, low id), (nodeDeviceIdFirstAddress + 1 + 2 * num, high id)]

/-- What one line does. Only the second field is stored, the loop leaves at `j == 1`. -/
def readLine (nullInt : U32) (line : Bytes) (r : Reading) : Reading :=
  match strtok (cString line) with
  | none => { r with tokens := r.tokens ++ [none] }
  | some (record, rest) =>
    let num : U8 := (strToInt record).setWidth 8
    match strtok rest with
    | none =>
      { regs := assign r.regs (storeId num.toNat nullInt), tokens := r.tokens ++ [some record, none] }
    | some (second, _) =>
      { regs := assign r.regs (storeId num.toNat (strToInt second)),
        tokens := r.tokens ++ [some record, some second] }

/-- The line loop; `none` when `fuel` calls of `f_gets` were not enough. -/
def readLoop (nullInt : U32) (fileSize : Nat) : Nat → Bytes → Reading → Option Reading
  | 0, _, _ => none
  | fuel + 1, rest, r =>
    match fGets fileSize rest with
    | none => some r
    | some (line, rest) => readLoop nullInt fileSize fuel rest (readLine nullInt line r)

/-- `ReadDeviceIdFile` with the contents of the file, if it exists: code and effect. -/
def readDeviceIdFile (nullInt : U32) (file : Option Bytes) (regs : Table) : U8 × Option Reading :=
  match file with
  | none => (frNoFile, some ⟨regs, []⟩)
  | some bytes => (frOk, readLoop nullInt (bytes.length % 2 ^ 16) (bytes.length + 1) bytes ⟨regs, []⟩)

theorem fGetsLoop_line (pre rest : Bytes) (budget : Nat) (hpre : lineFeed ∉ pre) (hb : pre.length < budget) :
    fGetsLoop budget (pre ++ lineFeed :: rest) = (pre ++ [lineFeed], rest) := by
  induction pre generalizing budget with
  | nil =>
    obtain ⟨b, rfl⟩ : ∃ b, budget = b + 1 := ⟨budget - 1, by simp at hb; omega⟩
    simp [fGetsLoop]
  | cons c pre ih =>
    simp only [List.mem_cons, not_or, List.length_cons] at hpre hb
    obtain ⟨b, rfl⟩ : ∃ b, budget = b + 1 := ⟨budget - 1, by omega⟩
    simp only [List.cons_append, fGetsLoop, if_neg (Ne.symm hpre.1), ih b hpre.2 (by omega)]

/-- A line that fits the buffer is read whole. -/
theorem fGets_line (pre rest : Bytes) (len : Nat) (hpre : lineFeed ∉ pre) (hl : pre.length + 1 < len) :
    fGets len (pre ++ lineFeed :: rest) = some (pre ++ [lineFeed], rest) := by
  rw [fGets, fGetsLoop_line pre rest (len - 1) hpre (by omega)]
  cases pre <;> rfl

theorem fGets_nil (len : Nat) : fGets len [] = none := by
  rw [fGets]
  cases len - 1 <;> rfl

theorem strtok_token (token rest : Bytes) (ht : token ≠ []) (hc : comma ∉ token) :
    strtok (token ++ comma :: rest) = some (token, rest) := by
  obtain ⟨c, token, rfl⟩ := List.exists_cons_of_ne_nil ht
  have hne : ∀ x ∈ c :: token, (x != comma) = true := by
    intro x hx
    rw [bne_iff_ne]
    rintro rfl
    exact hc hx
  have hskip : (c :: (token ++ comma :: rest)).dropWhile (· == comma) = c :: (token ++ comma :: rest) :=
    List.dropWhile_cons_of_neg (by simpa using hne c (by simp))
  have htake : (c :: (token ++ comma :: rest)).takeWhile (· != comma) = c :: token := by
    rw [← List.cons_append, List.takeWhile_append_of_pos hne]
    simp
  have hdrop : (c :: (token ++ comma :: rest)).dropWhile (· != comma) = comma :: rest := by
    rw [← List.cons_append, List.dropWhile_append_of_pos hne]
    simp
  simp only [strtok, List.cons_append, hskip, htake, hdrop, List.tail_cons]

theorem strToIntLoop_map (digits : List Nat) (m : Nat) (h : ∀ d ∈ digits, d < 10) :
    strToIntLoop (digits.map ascii) (BitVec.ofNat 32 m) =
      BitVec.ofNat 32 (digits.foldl (fun m d => 10 * m + d) m) := by
  induction digits generalizing m with
  | nil => simp [strToIntLoop]
  | cons d digits ih =>
    have hd : d < 10 := h d (by simp)
    have hrange : ¬ (ascii d < 48#8 ∨ 57#8 < ascii d) := by
      simp only [BitVec.lt_def, ascii_toNat d hd, BitVec.toNat_ofNat]
      omega
    have hnext : BitVec.ofNat 32 m * 10#32 + ((ascii d).setWidth 32 - 48#32) = BitVec.ofNat 32 (10 * m + d) := by
      apply BitVec.eq_of_toNat_eq
      simp only [BitVec.toNat_add, BitVec.toNat_mul, BitVec.toNat_sub, BitVec.toNat_setWidth, ascii_toNat d hd,
        BitVec.toNat_ofNat]
      omega
    rw [List.map_cons, strToIntLoop, if_neg hrange, hnext, ih _ (fun e he => h e (by simp [he])),
      List.foldl_cons]

/-- Reading a canonical numeral gives its number back. -/
theorem strToInt_text (n : U32) : strToInt (text 10 n.toNat) = n := by
  have hvalue := value_decimal 10 n.toNat (u32_lt n)
  rw [value] at hvalue
  rw [strToInt, text, strToIntLoop_map _ 0 (decimal_lt_ten 10 _ (u32_lt n)), hvalue]
  simp

theorem not_mem_text (n : U32) (c : U8) (hc : c.toNat < 48 ∨ 57 < c.toNat) : c ∉ text 10 n.toNat := by
  intro hmem
  have := text_digits 10 _ (u32_lt n) c hmem
  omega

/-- The characters of a line in front of the line feed. -/
def rowFields (i : Nat) (id : U32) : Bytes := text 10 i ++ comma :: (text 10 id.toNat ++ [comma])

theorem rowText_eq (i : Nat) (id : U32) : rowText i id = rowFields i id ++ [lineFeed] := by
  simp [rowText, rowFields]

theorem rowText_length (i : Nat) (id : U32) : 5 ≤ (rowText i id).length ∧ (rowText i id).length ≤ 23 := by
  have h₁ := text_length_le 10 i
  have h₂ := text_length_le 10 id.toNat
  have h₃ : 0 < (text 10 i).length := List.length_pos_iff.mpr (text_ne_nil 9 i)
  have h₄ : 0 < (text 10 id.toNat).length := List.length_pos_iff.mpr (text_ne_nil 9 id.toNat)
  simp only [rowText, List.length_append, List.length_cons, List.length_nil]
  omega

section Row

variable (n : U32) (id : U32)

theorem not_mem_rowFields (c : U8) (hc : c.toNat < 44 ∨ c.toNat = 45) : c ∉ rowFields n.toNat id := by
  have hcomma : c ≠ comma := by
    rintro rfl
    revert hc
    decide
  have h₁ := not_mem_text n c (by omega)
  have h₂ := not_mem_text id c (by omega)
  simp [rowFields, h₁, h₂, hcomma]

/-- A written line is split into exactly its two fields. -/
theorem readLine_row (nullInt : U32) (r : Reading) (hn : n.toNat < nodeCount) :
    readLine nullInt (rowText n.toNat id) r =
      { regs := assign r.regs (storeId n.toNat id),
        tokens := r.tokens ++ [some (text 10 n.toNat), some (text 10 id.toNat)] } := by
  have hstring : cString (rowText n.toNat id) = rowText n.toNat id := by
    apply cString_eq_self
    rw [rowText_eq, List.mem_append, not_or]
    exact ⟨not_mem_rowFields n id 0#8 (by decide), by decide⟩
  have hnum : ((n.setWidth 8 : U8)).toNat = n.toNat := by
    simp only [BitVec.toNat_setWidth, nodeCount] at hn ⊢
    omega
  have hfirst : strtok (rowText n.toNat id) = some (text 10 n.toNat, text 10 id.toNat ++ [comma, lineFeed]) := by
    rw [rowText, List.append_assoc, List.singleton_append]
    exact strtok_token _ _ (text_ne_nil 9 _) (not_mem_text n comma (by decide))
  have hsecond : strtok (text 10 id.toNat ++ [comma, lineFeed]) = some (text 10 id.toNat, [lineFeed]) :=
    strtok_token _ _ (text_ne_nil 9 _) (not_mem_text id comma (by decide))
  simp only [readLine, hstring, hfirst, hsecond, strToInt_text, hnum]

end Row

theorem linesText_length (ids : Nat → U32) (slots : List Nat) :
    5 * slots.length ≤ (linesText ids slots).length ∧ (linesText ids slots).length ≤ 23 * slots.length := by
  induction slots with
  | nil => simp [linesText]
  | cons i slots ih =>
    have hrow := rowText_length i (ids i)
    simp only [linesText, List.flatMap_cons, List.length_append, List.length_cons] at ih ⊢
    omega

/-- The register writes and tokens of a run over whole lines. -/
def lineWrites (ids : Nat → U32) (slots : List Nat) : List (Nat × U16) := slots.flatMap fun i => storeId i (ids i)

def lineTokens (ids : Nat → U32) (slots : List Nat) : List (Option Bytes) :=
  slots.flatMap fun i => [some (text 10 i), some (text 10 (ids i).toNat)]

/-- The lines that the calls of `f_gets` return. -/
def fileLines (fileSize : Nat) : Nat → Bytes → List Bytes
  | 0, _ => []
  | fuel + 1, rest =>
    match fGets fileSize rest with
    | none => []
    | some (line, rest) => line :: fileLines fileSize fuel rest

theorem fGetsLoop_append (budget : Nat) (rest : Bytes) :
    (fGetsLoop budget rest).1 ++ (fGetsLoop budget rest).2 = rest := by
  induction budget generalizing rest with
  | zero => rfl
  | succ budget ih =>
    cases rest with
    | nil => rfl
    | cons c rest =>
      simp only [fGetsLoop]
      split
      · rfl
      · exact congrArg (c :: ·) (ih rest)

/-- Every line takes at least one character from the file. -/
theorem fGets_length (len : Nat) (rest line rest' : Bytes) (h : fGets len rest = some (line, rest')) :
    rest'.length < rest.length := by
  have happ := fGetsLoop_append (len - 1) rest
  rw [fGets] at h
  split at h
  · cases h
  · next c line' rest'' heq =>
    obtain ⟨-, rfl⟩ := Prod.mk.inj (Option.some.inj h)
    rw [← happ, heq]
    simp only [List.length_append, List.length_cons]
    omega

/-- With more calls than characters left the loop ends, after the lines one by one. -/
theorem readLoop_eq_foldl (nullInt : U32) (fileSize fuel : Nat) (rest : Bytes) (r : Reading) (h : rest.length < fuel) :
    readLoop nullInt fileSize fuel rest r =
      some ((fileLines fileSize fuel rest).foldl (fun r line => readLine nullInt line r) r) := by
  induction fuel generalizing rest r with
  | zero => cases h
  | succ fuel ih =>
    rw [readLoop, fileLines]
    cases hline : fGets fileSize rest with
    | none => rfl
    | some line =>
      have hlt := fGets_length fileSize rest line.1 line.2 hline
      exact ih line.2 (readLine nullInt line.1 r) (by omega)

/-- Written lines that fit the buffer are returned one by one. -/
theorem fileLines_append (ids : Nat → U32) (slots : List Nat) (fileSize fuel : Nat) (rest : Bytes)
    (hs : ∀ i ∈ slots, i < nodeCount) (hf : ∀ i ∈ slots, (rowText i (ids i)).length < fileSize) :
    fileLines fileSize (slots.length + fuel) (linesText ids slots ++ rest) =
      slots.map (fun i => rowText i (ids i)) ++ fileLines fileSize fuel rest := by
  induction slots with
  | nil => simp [linesText]
  | cons i slots ih =>
    have hi : i < nodeCount := hs i (by simp)
    obtain ⟨n, rfl⟩ : ∃ n : U32, i = n.toNat :=
      ⟨BitVec.ofNat 32 i, by simp only [nodeCount, BitVec.toNat_ofNat] at hi ⊢; omega⟩
    have hlen := hf n.toNat (by simp)
    rw [rowText_eq, List.length_append, List.length_singleton] at hlen
    have hline : fGets fileSize (linesText ids (n.toNat :: slots) ++ rest) =
        some (rowText n.toNat (ids n.toNat), linesText ids slots ++ rest) := by
      have hsplit : linesText ids (n.toNat :: slots) ++ rest =
          rowFields n.toNat (ids n.toNat) ++ lineFeed :: (linesText ids slots ++ rest) := by
        simp [linesText, rowText_eq]
      rw [hsplit, fGets_line _ _ _ (not_mem_rowFields n _ lineFeed (by decide)) (by omega), ← rowText_eq]
    have hrest := ih (fun j hj => hs j (by simp [hj])) (fun j hj => hf j (by simp [hj]))
    rw [List.length_cons, Nat.add_right_comm, fileLines, hline]
    simp only [hrest, List.map_cons, List.cons_append]

/-- What written lines do to the registers. -/
theorem foldl_readLine (nullInt : U32) (ids : Nat → U32) (slots : List Nat) (r : Reading)
    (hs : ∀ i ∈ slots, i < nodeCount) :
    (slots.map fun i => rowText i (ids i)).foldl (fun r line => readLine nullInt line r) r =
      { regs := assign r.regs (lineWrites ids slots), tokens := r.tokens ++ lineTokens ids slots } := by
  induction slots generalizing r with
  | nil => simp [lineWrites, lineTokens]
  | cons i slots ih =>
    have hi : i < nodeCount := hs i (by simp)
    obtain ⟨n, rfl⟩ : ∃ n : U32, i = n.toNat :=
      ⟨BitVec.ofNat 32 i, by simp only [nodeCount, BitVec.toNat_ofNat] at hi ⊢; omega⟩
    rw [List.map_cons, List.foldl_cons, readLine_row n (ids n.toNat) nullInt r hi,
      ih _ (fun j hj => hs j (by simp [hj]))]
    simp [lineWrites, lineTokens, assign_append]

theorem fileLines_nil (fileSize fuel : Nat) : fileLines fileSize fuel [] = [] := by
  cases fuel with
  | zero => rfl
  | succ fuel => rw [fileLines, fGets_nil]

/-- Line by line, written text is read back. -/
theorem readLoop_lines (nullInt : U32) (ids : Nat → U32) (slots : List Nat) (fileSize fuel : Nat) (r : Reading)
    (hs : ∀ i ∈ slots, i < nodeCount) (hf : 24 < fileSize) (hfuel : (linesText ids slots).length < fuel) :
    readLoop nullInt fileSize fuel (linesText ids slots) r =
      some { regs := assign r.regs (lineWrites ids slots), tokens := r.tokens ++ lineTokens ids slots } := by
  have hcount := (linesText_length ids slots).1
  obtain ⟨f, rfl⟩ : ∃ f, fuel = slots.length + f := ⟨fuel - slots.length, by omega⟩
  have hlines := fileLines_append ids slots fileSize f [] hs
    (fun i _ => lt_of_le_of_lt (rowText_length i (ids i)).2 (by omega))
  rw [List.append_nil, fileLines_nil, List.append_nil] at hlines
  rw [readLoop_eq_foldl _ _ _ _ _ hfuel, hlines, foldl_readLine nullInt ids slots r hs]

theorem mem_lineWrites (ids : Nat → U32) (slots : List Nat) (w : Nat × U16) :
    w ∈ lineWrites ids slots ↔ ∃ i ∈ slots, w ∈ storeId i (ids i) := by
  simp [lineWrites]

theorem mem_storeId (i : Nat) (id : U32) (w : Nat × U16) :
    w ∈ storeId i id ↔ w = (0x708 + 2 * i, low id) ∨ w = (0x709 + 2 * i, high id) := by
  simp [storeId, nodeDeviceIdFirstAddress]

/-- A line names a slot by eight bits, so it writes the device-ID area only. -/
theorem readLine_other (nullInt : U32) (line : Bytes) (r : Reading) (a : Nat) (ha : a < 0x708 ∨ 0x907 < a) :
    (readLine nullInt line r).regs a = r.regs a := by
  have hstore (num : U8) (id : U32) : assign r.regs (storeId num.toNat id) a = r.regs a := by
    apply assign_of_not_mem
    have hnum := num.isLt
    simp only [storeId, nodeDeviceIdFirstAddress, List.map_cons, List.map_nil, List.mem_cons, List.not_mem_nil,
      or_false]
    omega
  unfold readLine
  cases strtok (cString line) with
  | none => rfl
  | some first =>
    simp only
    cases strtok first.2 with
    | none => exact hstore _ _
    | some second => exact hstore _ _

theorem readLoop_other (nullInt : U32) (fileSize fuel : Nat) (rest : Bytes) (r r' : Reading)
    (h : readLoop nullInt fileSize fuel rest r = some r') (a : Nat) (ha : a < 0x708 ∨ 0x907 < a) :
    r'.regs a = r.regs a := by
  induction fuel generalizing rest r with
  | zero => cases h
  | succ fuel ih =>
    rw [readLoop] at h
    cases hline : fGets fileSize rest with
    | none =>
      simp only [hline, Option.some.injEq] at h
      rw [h]
    | some line =>
      simp only [hline] at h
      rw [ih _ _ h, readLine_other nullInt line.1 r a ha]

/-- Whatever the file holds, loading it leaves all other registers alone. -/
theorem readDeviceIdFile_other (nullInt : U32) (file : Option Bytes) (regs : Table) (r : Reading)
    (h : (readDeviceIdFile nullInt file regs).2 = some r) (a : Nat) (ha : a < 0x708 ∨ 0x907 < a) :
    r.regs a = regs a := by
  cases file with
  | none =>
    cases h
    rfl
  | some bytes => exact readLoop_other nullInt _ _ bytes _ r h a ha

theorem idAt_storeId (regs : Table) (num i : Nat) (id : U32) :
    idAt (assign regs (storeId num id)) i = if num = i then id else idAt regs i := by
  by_cases h : num = i
  · subst h
    have hnodup : ((storeId num id).map Prod.fst).Nodup := by simp [storeId]
    rw [if_pos rfl, idAt, assign_of_mem _ _ hnodup _ (low id) (by simp [storeId]),
      assign_of_mem _ _ hnodup _ (high id) (by simp [storeId]), join_low_high]
  · rw [if_neg h, idAt, idAt, assign_of_not_mem, assign_of_not_mem]
    · simp only [storeId, List.map_cons, List.map_nil, List.mem_cons, List.not_mem_nil, or_false]
      omega
    · simp only [storeId, List.map_cons, List.map_nil, List.mem_cons, List.not_mem_nil, or_false]
      omega

/-- A slot that has a line holds the ID of that line, any other what it held. -/
theorem idAt_lineWrites (ids : Nat → U32) (slots : List Nat) (regs : Table) (i : Nat) :
    idAt (assign regs (lineWrites ids slots)) i = if i ∈ slots then ids i else idAt regs i := by
  induction slots generalizing regs with
  | nil => simp [lineWrites]
  | cons j slots ih =>
    have hsplit : lineWrites ids (j :: slots) = storeId j (ids j) ++ lineWrites ids slots := rfl
    rw [hsplit, assign_append, ih, idAt_storeId]
    by_cases hi : i ∈ slots
    · simp [hi]
    · by_cases hj : j = i
      · simp [hj]
      · simp [hi, hj, Ne.symm hj]

/-- Lines of real slots only write the device-ID area. -/
theorem assign_lineWrites_other (ids : Nat → U32) (slots : List Nat) (regs : Table)
    (hs : ∀ i ∈ slots, i < nodeCount) (a : Nat) (ha : a < 0x708 ∨ 0x907 < a) :
    assign regs (lineWrites ids slots) a = regs a := by
  apply assign_of_not_mem
  intro hmem
  obtain ⟨w, hw, rfl⟩ := List.mem_map.mp hmem
  obtain ⟨j, hj, hw⟩ := (mem_lineWrites _ _ _).mp hw
  have hlt := hs j hj
  simp only [nodeCount] at hlt
  rw [mem_storeId] at hw
  rcases hw with rfl | rfl <;> simp at ha <;> omega

/-- Reading the text of some slots sets these slots and touches nothing else. -/
theorem readDeviceIdFile_linesText (nullInt : U32) (ids : Nat → U32) (slots : List Nat) (regs : Table)
    (hs : ∀ i ∈ slots, i < nodeCount) (hlo : 5 ≤ slots.length) (hhi : slots.length ≤ nodeCount) :
    readDeviceIdFile nullInt (some (linesText ids slots)) regs =
      (frOk, some ⟨assign regs (lineWrites ids slots), lineTokens ids slots⟩) := by
  have hlen := linesText_length ids slots
  have hsize : 24 < (linesText ids slots).length % 2 ^ 16 := by
    simp only [nodeCount] at hhi
    rw [Nat.mod_eq_of_lt (by omega)]
    omega
  rw [readDeviceIdFile, readLoop_lines nullInt ids slots _ _ ⟨regs, []⟩ hs hsize (Nat.lt_succ_self _)]
  rfl

/-- Reading the text of all slots sets every slot and touches nothing else. -/
theorem readDeviceIdFile_lines (nullInt : U32) (ids : Nat → U32) (regs : Table) :
    ∃ r, readDeviceIdFile nullInt (some (linesText ids (List.range nodeCount))) regs = (frOk, some r) ∧
      (∀ i < nodeCount, idAt r.regs i = ids i) ∧ (∀ a, a < 0x708 ∨ 0x907 < a → r.regs a = regs a) ∧
      none ∉ r.tokens := by
  have hslots (i : Nat) : i ∈ List.range nodeCount ↔ i < nodeCount := List.mem_range
  have hlength : (List.range nodeCount).length = nodeCount := List.length_range
  have hlo : 5 ≤ nodeCount := by decide
  generalize List.range nodeCount = slots at *
  refine ⟨_, readDeviceIdFile_linesText nullInt ids slots regs (fun i hi => (hslots i).mp hi) (hlength ▸ hlo)
    hlength.le, ?_, ?_, ?_⟩
  · intro i hi
    rw [idAt_lineWrites, if_pos ((hslots i).mpr hi)]
  · exact assign_lineWrites_other ids slots regs fun i hi => (hslots i).mp hi
  · simp [lineTokens]

/-- Equal IDs are equal registers. -/
theorem idArea_ext (regs regs' : Table) (h : ∀ i < nodeCount, idAt regs i = idAt regs' i) (a : Nat)
    (hlo : 0x708 ≤ a) (hhi : a ≤ 0x907) : regs a = regs' a := by
  obtain ⟨k, hk⟩ := Nat.even_or_odd' (a - 0x708)
  have hslot := h k (by simp only [nodeCount]; omega)
  cases hk with
  | inl hk =>
    obtain rfl : a = nodeDeviceIdFirstAddress + 2 * k := by simp only [nodeDeviceIdFirstAddress]; omega
    simpa [idAt] using congrArg low hslot
  | inr hk =>
    obtain rfl : a = nodeDeviceIdFirstAddress + 1 + 2 * k := by simp only [nodeDeviceIdFirstAddress]; omega
    simpa [idAt] using congrArg high hslot

/-- Save and load are inverse on the device-ID area, for any table the IDs are loaded into. -/
theorem deviceIds_round_trip (nullInt : U32) (regs other : Table) :
    ∃ r, readDeviceIdFile nullInt (some (saveDeviceIdFile regs)) other = (frOk, some r) ∧
      (∀ i < nodeCount, idAt r.regs i = idAt regs i) ∧
      (∀ a, 0x708 ≤ a → a ≤ 0x907 → r.regs a = regs a) ∧
      (∀ a, a < 0x708 ∨ 0x907 < a → r.regs a = other a) ∧ none ∉ r.tokens := by
  obtain ⟨r, hread, hids, hother, htokens⟩ := readDeviceIdFile_lines nullInt (idAt regs) other
  rw [← saveDeviceIdFile_eq] at hread
  exact ⟨r, hread, hids, idArea_ext r.regs regs hids, hother, htokens⟩

end Reader

end DataReceiveRelay.DeviceIdFile
