import DataReceiveRelay.DeviceIdFile

/-!
# A save that was cut short

`SaveDeviceIdFile` truncates the old file before it writes the first row, so
when it is interrupted the flash holds some leading part of the new text and
nothing else. `ReadDeviceIdFile` has no notion of an incomplete line: it takes
what digits there are. A line that ends before its ID field makes it read
through a missing token, and what the slot named there gets is left open.
-/

namespace DataReceiveRelay.CutFile

open Words Runs Registers Decimal DeviceIdFile

section Fields

/-- The slot a line names and the ID it gives, if it has an ID field. -/
def fields (line : Bytes) : Option (Nat × Option U32) :=
  (strtok (cString line)).map fun (record, rest) =>
    (((strToInt record).setWidth 8 : U8).toNat, (strtok rest).map fun (second, _) => strToInt second)

/-- The effect of a line on the registers. -/
theorem readLine_regs (nullInt : U32) (line : Bytes) (r : Reading) :
    (readLine nullInt line r).regs =
      match fields line with
      | none => r.regs
      | some (num, id) => assign r.regs (storeId num (id.getD nullInt)) := by
  unfold readLine fields
  cases strtok (cString line) with
  | none => rfl
  | some first =>
    simp only [Option.map_some]
    cases strtok first.2 with
    | none => rfl
    | some second => rfl

theorem idAt_zeroTable (i : Nat) : idAt zeroTable i = 0#32 := by
  simp [idAt, zeroTable, join]

/-- A slot that the line does not name keeps its ID. -/
theorem idAt_readLine_other (nullInt : U32) (line : Bytes) (r : Reading) (i : Nat)
    (h : ∀ id, fields line ≠ some (i, id)) : idAt (readLine nullInt line r).regs i = idAt r.regs i := by
  rw [readLine_regs]
  cases hf : fields line with
  | none => rfl
  | some f =>
    have hne : f.1 ≠ i := by
      rintro rfl
      exact h f.2 hf
    simp only [idAt_storeId, if_neg hne]

theorem idAt_readLine (nullInt : U32) (line : Bytes) (r : Reading) (i : Nat) (id : U32)
    (h : fields line = some (i, some id)) : idAt (readLine nullInt line r).regs i = id := by
  rw [readLine_regs, h]
  simp only [idAt_storeId, if_true, Option.getD_some]

/-- The last token of a string has no comma behind it. -/
theorem strtok_last (token : Bytes) (ht : token ≠ []) (hc : comma ∉ token) : strtok token = some (token, []) := by
  obtain ⟨c, token, rfl⟩ := List.exists_cons_of_ne_nil ht
  have hne : ∀ x ∈ c :: token, (x != comma) = true := by
    intro x hx
    rw [bne_iff_ne]
    rintro rfl
    exact hc hx
  have hskip : (c :: token).dropWhile (· == comma) = c :: token :=
    List.dropWhile_cons_of_neg (by simpa using hne c (by simp))
  have hall : (c :: token).dropWhile (· != comma) = [] := List.dropWhile_eq_nil_iff.mpr hne
  simp only [strtok, hskip, List.takeWhile_eq_self_iff.mpr hne, hall, List.tail_nil]

theorem strToInt_nil : strToInt [] = 0#32 := rfl

end Fields

section Row

variable (n : U32) (id : U32)

theorem rowText_length_eq : (rowText n.toNat id).length =
    (text 10 n.toNat).length + (text 10 id.toNat).length + 3 := by
  simp only [rowText, List.length_append, List.length_cons, List.length_nil]
  omega

/-- No part of a line has a terminator in it. -/
theorem cString_take (m : Nat) : cString ((rowText n.toNat id).take m) = (rowText n.toNat id).take m := by
  apply cString_eq_self
  intro hmem
  have hrow := List.mem_of_mem_take hmem
  rw [rowText_eq, List.mem_append] at hrow
  rcases hrow with h | h
  · exact not_mem_rowFields n id 0#8 (by decide) h
  · revert h
    decide

/-- Only the last character of a line is a line feed. -/
theorem lineFeed_not_mem_take (m : Nat) (hm : m < (rowText n.toNat id).length) :
    lineFeed ∉ (rowText n.toNat id).take m := by
  rw [rowText_eq, List.length_append, List.length_singleton] at hm
  rw [rowText_eq, List.take_append_of_le_length (by omega)]
  intro hmem
  exact not_mem_rowFields n id lineFeed (by decide) (List.mem_of_mem_take hmem)

/-- Part of a line that ends before the ID names a slot and gives it nothing. -/
theorem fields_number (m : Nat) (hpos : 0 < m) (hm : m ≤ (text 10 n.toNat).length + 1) :
    ∃ num, fields ((rowText n.toNat id).take m) = some (num, none) := by
  have hcomma : comma ∉ text 10 n.toNat := not_mem_text n comma (by decide)
  rw [fields, cString_take]
  by_cases hlast : m ≤ (text 10 n.toNat).length
  · have hpart : (rowText n.toNat id).take m = (text 10 n.toNat).take m := by
      rw [rowText, List.append_assoc, List.take_append_of_le_length hlast]
    have hne : (text 10 n.toNat).take m ≠ [] := by
      rw [← List.length_pos_iff, List.length_take]
      omega
    rw [hpart, strtok_last _ hne fun hmem => hcomma (List.mem_of_mem_take hmem)]
    exact ⟨_, rfl⟩
  · have hpart : (rowText n.toNat id).take m = text 10 n.toNat ++ comma :: [] := by
      obtain rfl : m = (text 10 n.toNat ++ [comma]).length := by simp; omega
      rw [rowText, List.take_left]
    rw [hpart, strtok_token _ _ (text_ne_nil 9 _) hcomma]
    exact ⟨_, rfl⟩

/-- The token behind the slot number is what there is of the ID. -/
theorem strtok_digits (j : Nat) (hpos : 0 < j) (hj : j < (text 10 id.toNat).length + 2) :
    ∃ rest, strtok ((text 10 id.toNat ++ [comma, lineFeed]).take j) = some ((text 10 id.toNat).take j, rest) := by
  have hcomma : comma ∉ text 10 id.toNat := not_mem_text id comma (by decide)
  by_cases hlast : j ≤ (text 10 id.toNat).length
  · have hne : (text 10 id.toNat).take j ≠ [] := by
      have hlen := List.length_pos_iff.mpr (text_ne_nil 9 id.toNat)
      rw [← List.length_pos_iff, List.length_take]
      omega
    rw [List.take_append_of_le_length hlast]
    exact ⟨[], strtok_last _ hne fun hmem => hcomma (List.mem_of_mem_take hmem)⟩
  · obtain rfl : j = (text 10 id.toNat).length + 1 := by omega
    rw [List.take_append, List.take_of_length_le (Nat.le_succ _), Nat.add_sub_cancel_left]
    exact ⟨[], strtok_token _ [] (text_ne_nil 9 _) hcomma⟩

/-- Part of a line that ends behind the first digit of the ID gives the number that is there. -/
theorem fields_digits (hn : n.toNat < nodeCount) (m : Nat) (hlo : (text 10 n.toNat).length + 1 < m)
    (hhi : m < (rowText n.toNat id).length) :
    fields ((rowText n.toNat id).take m) =
      some (n.toNat, some (strToInt ((text 10 id.toNat).take (m - ((text 10 n.toNat).length + 1))))) := by
  rw [rowText_length_eq] at hhi
  obtain ⟨j, rfl⟩ : ∃ j, m = (text 10 n.toNat).length + 1 + j := ⟨m - ((text 10 n.toNat).length + 1), by omega⟩
  have hnum : ((n.setWidth 8 : U8)).toNat = n.toNat := by
    simp only [BitVec.toNat_setWidth, nodeCount] at hn ⊢
    omega
  have hpart : (rowText n.toNat id).take ((text 10 n.toNat).length + 1 + j) =
      text 10 n.toNat ++ comma :: (text 10 id.toNat ++ [comma, lineFeed]).take j := by
    have hlen : (text 10 n.toNat).length + 1 = (text 10 n.toNat ++ [comma]).length := by simp
    rw [rowText, hlen, List.take_length_add_append]
    simp
  obtain ⟨rest, hsecond⟩ := strtok_digits id j (by omega) (by omega)
  have hfirst : strtok (text 10 n.toNat ++ comma :: (text 10 id.toNat ++ [comma, lineFeed]).take j) =
      some (text 10 n.toNat, (text 10 id.toNat ++ [comma, lineFeed]).take j) :=
    strtok_token _ _ (text_ne_nil 9 _) (not_mem_text n comma (by decide))
  rw [fields, cString_take, hpart, hfirst, Nat.add_sub_cancel_left]
  simp only [Option.map_some, hsecond, strToInt_text, hnum]

end Row

section Lines

/-- The last line of a file needs no line feed. -/
theorem fGetsLoop_rest (line : Bytes) (budget : Nat) (h : lineFeed ∉ line) (hb : line.length ≤ budget) :
    fGetsLoop budget line = (line, []) := by
  induction line generalizing budget with
  | nil => cases budget <;> rfl
  | cons c line ih =>
    simp only [List.mem_cons, not_or, List.length_cons] at h hb
    obtain ⟨b, rfl⟩ : ∃ b, budget = b + 1 := ⟨budget - 1, by omega⟩
    simp only [fGetsLoop, if_neg (Ne.symm h.1), ih b h.2 (by omega)]

theorem fGets_rest (line : Bytes) (len : Nat) (hne : line ≠ []) (h : lineFeed ∉ line) (hl : line.length < len) :
    fGets len line = some (line, []) := by
  rw [fGets, fGetsLoop_rest line (len - 1) h (by omega)]
  cases line with
  | nil => exact absurd rfl hne
  | cons c line => rfl

/-- A line that fills the buffer is broken off there. -/
theorem fGetsLoop_full (line rest : Bytes) (h : lineFeed ∉ line) :
    fGetsLoop line.length (line ++ rest) = (line, rest) := by
  induction line with
  | nil => rfl
  | cons c line ih =>
    simp only [List.mem_cons, not_or] at h
    simp only [List.length_cons, List.cons_append, fGetsLoop, if_neg (Ne.symm h.1), ih h.2]

theorem fGets_full (line rest : Bytes) (hne : line ≠ []) (h : lineFeed ∉ line) :
    fGets (line.length + 1) (line ++ rest) = some (line, rest) := by
  rw [fGets, Nat.add_sub_cancel, fGetsLoop_full line rest h]
  cases line with
  | nil => exact absurd rfl hne
  | cons c line => rfl

theorem fGets_single (c : U8) (len : Nat) (hl : 1 < len) : fGets len [c] = some ([c], []) := by
  obtain ⟨b, rfl⟩ : ∃ b, len = b + 2 := ⟨len - 2, by omega⟩
  rw [fGets, Nat.add_sub_assoc (by decide)]
  by_cases hc : c = lineFeed
  · simp [fGetsLoop, hc]
  · cases b <;> simp [fGetsLoop, hc]

/-- A line of one character has no ID field. -/
theorem fields_single (c : U8) (i : Nat) (id : U32) : fields [c] ≠ some (i, some id) := by
  rw [fields]
  by_cases hz : c = 0#8
  · simp [hz, cString, strtok]
  · by_cases hc : c = comma
    · have hnone : strtok (cString [comma]) = none := by decide
      simp [hc, hnone]
    · have hstring : cString [c] = [c] := cString_eq_self _ (by simpa using Ne.symm hz)
      rw [hstring, strtok_last [c] (by simp) (by simpa using Ne.symm hc)]
      simp [strtok]

end Lines

section Position

variable (ids : Nat → U32)

/-- Where the line of a slot begins in the file. -/
def lineStart (i : Nat) : Nat := (linesText ids (List.range i)).length

/-- Where the digits of its ID begin. -/
def idStart (i : Nat) : Nat := lineStart ids i + ((text 10 i).length + 1)

theorem lineStart_succ (i : Nat) : lineStart ids (i + 1) = lineStart ids i + (rowText i (ids i)).length := by
  rw [lineStart, lineStart, linesText_succ, List.length_append]

theorem linesText_mono (k count : Nat) (h : k ≤ count) :
    linesText ids (List.range k) <+: linesText ids (List.range count) := by
  induction count, h using Nat.le_induction with
  | base => exact List.prefix_refl _
  | succ count _ ih =>
    rw [linesText_succ]
    exact ih.trans (List.prefix_append _ _)

theorem lineStart_mono (i j : Nat) (h : i ≤ j) : lineStart ids i ≤ lineStart ids j :=
  (linesText_mono ids i j h).length_le

theorem idEnd_lt (i : Nat) : idStart ids i + (text 10 (ids i).toNat).length + 1 < lineStart ids (i + 1) := by
  rw [lineStart_succ, idStart]
  simp only [rowText, List.length_append, List.length_cons, List.length_nil]
  omega

/-- A cut falls into the line of some slot. -/
theorem exists_line (n count : Nat) (h : n < lineStart ids count) :
    ∃ k < count, lineStart ids k ≤ n ∧ n < lineStart ids (k + 1) := by
  induction count with
  | zero => simp [lineStart, linesText] at h
  | succ count ih =>
    by_cases hn : n < lineStart ids count
    · obtain ⟨k, hk, hline⟩ := ih hn
      exact ⟨k, by omega, hline⟩
    · exact ⟨count, by omega, by omega, h⟩

/-- What the cut leaves: the lines before, and part of the line it falls into. -/
theorem take_lines (n k count : Nat) (hk : k < count) (hlo : lineStart ids k ≤ n) (hhi : n ≤ lineStart ids (k + 1)) :
    (linesText ids (List.range count)).take n =
      linesText ids (List.range k) ++ (rowText k (ids k)).take (n - lineStart ids k) := by
  obtain ⟨rest, hrest⟩ := linesText_mono ids (k + 1) count hk
  rw [← hrest, List.take_append_of_le_length hhi, linesText_succ, List.take_append,
    List.take_of_length_le hlo]
  rfl

/-- The number that is left of an ID. When the cut falls into the first line, the last byte of the file is a line
of its own, so that the number is one digit shorter. -/
def cutId (n i : Nat) : U32 :=
  strToInt ((text 10 (ids i).toNat).take (n - idStart ids i - if i = 0 then 1 else 0))

theorem cutId_whole (n i : Nat) (h : idStart ids i + (text 10 (ids i).toNat).length + 1 ≤ n) : cutId ids n i = ids i := by
  rw [cutId, List.take_of_length_le, strToInt_text]
  split <;> omega

theorem cutId_none (n i : Nat) (h : n ≤ idStart ids i) : cutId ids n i = 0#32 := by
  rw [cutId, Nat.sub_eq_zero_of_le h, Nat.zero_sub, List.take_zero, strToInt_nil]

end Position

section Cut

/-- Some line of the file names the slot and has no ID field. -/
def NamedWithoutId (cut : Bytes) (i : Nat) : Prop :=
  ∃ line ∈ fileLines (cut.length % 2 ^ 16) (cut.length + 1) cut, fields line = some (i, none)

variable (nullInt : U32) (ids : Nat → U32)

/-- The registers after the given lines, read in order on a zeroed table. -/
def readLines (lines : List Bytes) : Reading :=
  lines.foldl (fun r line => readLine nullInt line r) ⟨zeroTable, []⟩

theorem readDeviceIdFile_eq (cut : Bytes) :
    readDeviceIdFile nullInt (some cut) zeroTable =
      (frOk, some (readLines nullInt (fileLines (cut.length % 2 ^ 16) (cut.length + 1) cut))) := by
  rw [readDeviceIdFile, readLoop_eq_foldl _ _ _ _ _ (Nat.lt_succ_self _)]
  rfl

/-- Whole lines and then part of the line of slot `k`: every slot that is not named without an ID has the number
that is left of its own. -/
theorem idAt_readLines (k : Nat) (hk : k < nodeCount) (m : Nat) (hm : m < (rowText k (ids k)).length) (hpos : 0 < m)
    (i : Nat) (hi : fields ((rowText k (ids k)).take m) ≠ some (i, none)) :
    idAt (readLines nullInt ((List.range k).map (fun j => rowText j (ids j)) ++ [(rowText k (ids k)).take m])).regs i =
      if i < k then ids i
      else if i = k then strToInt ((text 10 (ids k).toNat).take (m - ((text 10 k).length + 1)))
      else 0#32 := by
  have hbase : idAt (assign zeroTable (lineWrites ids (List.range k))) i = if i < k then ids i else 0#32 := by
    rw [idAt_lineWrites, idAt_zeroTable]
    simp only [List.mem_range]
  rw [readLines, List.foldl_append, foldl_readLine nullInt ids _ _ fun j hj => (List.mem_range.mp hj).trans hk]
  obtain ⟨n, rfl⟩ : ∃ n : U32, k = n.toNat :=
    ⟨BitVec.ofNat 32 k, by simp only [nodeCount, BitVec.toNat_ofNat] at hk ⊢; omega⟩
  simp only [List.foldl_cons, List.foldl_nil]
  by_cases hshort : m ≤ (text 10 n.toNat).length + 1
  · -- The line ends before its ID: it names a slot that is not `i`.
    obtain ⟨num, hfields⟩ := fields_number n (ids n.toNat) m hpos hshort
    rw [hfields] at hi
    have hnum : num ≠ i := fun h => hi (by rw [h])
    rw [idAt_readLine_other _ _ _ _ (by rw [hfields]; simp [hnum]), hbase, Nat.sub_eq_zero_of_le hshort]
    simp only [List.take_zero, strToInt_nil, ite_self]
  · have hfields := fields_digits n (ids n.toNat) hk m (by omega) hm
    by_cases hik : i = n.toNat
    · subst hik
      rw [idAt_readLine _ _ _ _ _ hfields, if_neg (Nat.lt_irrefl _), if_pos rfl]
    · rw [idAt_readLine_other _ _ _ _ (by rw [hfields]; simp [Ne.symm hik]), hbase, if_neg hik]

/-- The number left of each ID, told by the line the cut falls into. -/
theorem cutId_eq (n k : Nat) (hk : k ≠ 0) (hlo : lineStart ids k ≤ n) (hhi : n < lineStart ids (k + 1)) (i : Nat) :
    cutId ids n i =
      if i < k then ids i
      else if i = k then strToInt ((text 10 (ids k).toNat).take (n - lineStart ids k - ((text 10 k).length + 1)))
      else 0#32 := by
  by_cases hi : i < k
  · have hend := idEnd_lt ids i
    have hmono := lineStart_mono ids (i + 1) k hi
    rw [if_pos hi, cutId_whole ids n i (by omega)]
  · rw [if_neg hi]
    by_cases hik : i = k
    · rw [if_pos hik, hik, cutId, if_neg hk, idStart, Nat.sub_zero, Nat.sub_add_eq]
    · have hmono := lineStart_mono ids (k + 1) i (by omega)
      rw [if_neg hik, cutId_none ids n i (by rw [idStart]; omega)]

theorem lineStart_bounds : 5 ≤ lineStart ids 1 ∧ lineStart ids nodeCount < 2 ^ 16 := by
  have hfirst := linesText_length ids (List.range 1)
  have hall := linesText_length ids (List.range nodeCount)
  simp only [List.length_range, nodeCount, lineStart] at *
  omega

theorem linesText_nil : linesText ids [] = [] := rfl

theorem lineStart_zero : lineStart ids 0 = 0 := rfl

/-- Behind the first line, no line is as long as the file. -/
theorem rowText_lt (n k : Nat) (hlo : lineStart ids 1 < n) (hstart : lineStart ids k ≤ n) (j : Nat) (hj : j < k) :
    (rowText j (ids j)).length < n := by
  have hline := lineStart_succ ids j
  have hmono := lineStart_mono ids (j + 1) k hj
  have hfirst := (lineStart_bounds ids).1
  cases j with
  | zero =>
    rw [lineStart_zero, Nat.zero_add, Nat.zero_add] at hline
    omega
  | succ j =>
    have hbefore := lineStart_mono ids 1 (j + 1) (by omega)
    omega

/-- The lines of a file that was cut behind the first line. -/
theorem fileLines_later (n k : Nat) (hk : k < nodeCount) (hlo : lineStart ids 1 < n) (hstart : lineStart ids k ≤ n)
    (hend : n < lineStart ids (k + 1)) :
    fileLines n (n + 1) ((linesText ids (List.range nodeCount)).take n) =
      (List.range k).map (fun j => rowText j (ids j)) ++
        if n - lineStart ids k = 0 then [] else [(rowText k (ids k)).take (n - lineStart ids k)] := by
  have hcount := (linesText_length ids (List.range k)).1
  rw [List.length_range, ← lineStart] at hcount
  have hrows := fileLines_append ids (List.range k) n (n + 1 - k) ((rowText k (ids k)).take (n - lineStart ids k))
    (fun j hj => (List.mem_range.mp hj).trans hk)
    (fun j hj => rowText_lt ids n k hlo hstart j (List.mem_range.mp hj))
  rw [List.length_range, Nat.add_sub_cancel' (by omega), ← take_lines ids n k nodeCount hk hstart hend.le] at hrows
  rw [hrows]
  congr 1
  by_cases hm : n - lineStart ids k = 0
  · rw [if_pos hm, hm, List.take_zero, fileLines_nil]
  · have hk₀ : k ≠ 0 := by
      rintro rfl
      rw [Nat.zero_add] at hend
      omega
    have hfirst := lineStart_mono ids 1 k (by omega)
    have hbounds := lineStart_bounds ids
    have hline := lineStart_succ ids k
    obtain ⟨u, rfl⟩ : ∃ u : U32, k = u.toNat :=
      ⟨BitVec.ofNat 32 k, by simp only [nodeCount, BitVec.toNat_ofNat] at hk ⊢; omega⟩
    have hnext := lineFeed_not_mem_take u (ids u.toNat) (n - lineStart ids u.toNat) (by omega)
    have hlength : ((rowText u.toNat (ids u.toNat)).take (n - lineStart ids u.toNat)).length =
        n - lineStart ids u.toNat := List.length_take_of_le (by omega)
    obtain ⟨f, hf⟩ : ∃ f, n + 1 - u.toNat = f + 1 := ⟨n - u.toNat, by omega⟩
    rw [if_neg hm, hf, fileLines, fGets_rest _ _ (by rw [← List.length_pos_iff]; omega) hnext (by omega)]
    simp only [fileLines_nil]

/-- A cut behind the first line. -/
theorem idAt_cut_later (n : Nat) (hlo : lineStart ids 1 < n) (hhi : n < lineStart ids nodeCount) (i : Nat)
    (hi : ¬NamedWithoutId ((linesText ids (List.range nodeCount)).take n) i) :
    idAt (readLines nullInt (fileLines n (n + 1) ((linesText ids (List.range nodeCount)).take n))).regs i =
      cutId ids n i := by
  have hbounds := lineStart_bounds ids
  obtain ⟨k, hk, hstart, hend⟩ := exists_line ids n nodeCount hhi
  have hk₀ : k ≠ 0 := by
    rintro rfl
    rw [Nat.zero_add] at hend
    omega
  have hline := lineStart_succ ids k
  have hlines := fileLines_later ids n k hk hlo hstart hend
  have hlength : ((linesText ids (List.range nodeCount)).take n).length = n := List.length_take_of_le hhi.le
  rw [NamedWithoutId, hlength, Nat.mod_eq_of_lt (by omega), hlines] at hi
  rw [hlines, cutId_eq ids n k hk₀ hstart hend]
  by_cases hm : n - lineStart ids k = 0
  · rw [if_pos hm, List.append_nil, readLines,
      foldl_readLine nullInt ids _ _ fun j hj => (List.mem_range.mp hj).trans hk, hm]
    simp only [idAt_lineWrites, idAt_zeroTable, List.mem_range, Nat.zero_sub, List.take_zero, strToInt_nil, ite_self]
  · rw [if_neg hm] at hi ⊢
    apply idAt_readLines nullInt ids k hk _ (by omega) (by omega)
    intro hnamed
    exact hi ⟨_, by simp, hnamed⟩

/-- With room for the terminator only, nothing is read. -/
theorem fileLines_one (fuel : Nat) (rest : Bytes) : fileLines 1 fuel rest = [] := by
  cases fuel <;> rfl

/-- A file of one line is handed out in two pieces, since its buffer has room for one byte less. -/
theorem fileLines_first (m : Nat) (hpos : 0 < m) (hm : m < (rowText 0 (ids 0)).length) :
    ∃ c, fileLines (m + 1) (m + 2) ((rowText 0 (ids 0)).take (m + 1)) = [(rowText 0 (ids 0)).take m, [c]] := by
  have hsplit := List.take_succ_eq_append_getElem hm
  have hlength : ((rowText 0 (ids 0)).take m).length = m := List.length_take_of_le hm.le
  have hnext := lineFeed_not_mem_take 0#32 (ids 0) m hm
  have hfirst := fGets_full ((rowText 0 (ids 0)).take m) [(rowText 0 (ids 0))[m]]
    (by rw [← List.length_pos_iff]; omega) hnext
  rw [hlength] at hfirst
  refine ⟨(rowText 0 (ids 0))[m], ?_⟩
  rw [hsplit, fileLines, hfirst]
  simp only
  rw [fileLines, fGets_single _ _ (by omega)]
  simp only [fileLines_nil]

theorem readLines_nil (i : Nat) : idAt (readLines nullInt []).regs i = 0#32 := idAt_zeroTable i

/-- Nothing of a file is read that ends before the first comma. -/
theorem idAt_cut_short (n : Nat) (hn : n ≤ 1) (rest : Bytes) (i : Nat) :
    idAt (readLines nullInt (fileLines n (n + 1) (rest.take n))).regs i = cutId ids n i := by
  have hlines : fileLines n (n + 1) (rest.take n) = [] := by
    cases n with
    | zero => rw [List.take_zero, fileLines_nil]
    | succ n =>
      obtain rfl : n = 0 := by omega
      exact fileLines_one _ _
  rw [hlines, readLines_nil, cutId_none ids n i (by rw [idStart]; omega)]

/-- A cut in the first line. -/
theorem idAt_cut_first (m : Nat) (hpos : 0 < m) (hhi : m + 1 ≤ lineStart ids 1) (i : Nat)
    (hi : ¬NamedWithoutId ((rowText 0 (ids 0)).take (m + 1)) i) :
    idAt (readLines nullInt (fileLines (m + 1) (m + 2) ((rowText 0 (ids 0)).take (m + 1)))).regs i =
      cutId ids (m + 1) i := by
  have hbounds := lineStart_bounds ids
  have hall := lineStart_mono ids 1 nodeCount (by decide)
  have hline := lineStart_succ ids 0
  rw [lineStart_zero, Nat.zero_add, Nat.zero_add] at hline
  have hlength : ((rowText 0 (ids 0)).take (m + 1)).length = m + 1 := List.length_take_of_le (by omega)
  obtain ⟨c, hlines⟩ := fileLines_first ids m hpos (by omega)
  rw [NamedWithoutId, hlength, Nat.mod_eq_of_lt (by omega), hlines] at hi
  have hfirst : fields ((rowText 0 (ids 0)).take m) ≠ some (i, none) := fun h => hi ⟨_, by simp, h⟩
  have hlast : ∀ id, fields [c] ≠ some (i, id) := by
    intro id
    cases id with
    | none => exact fun h => hi ⟨[c], by simp, h⟩
    | some id => exact fields_single c i id
  have hread := idAt_readLines nullInt ids 0 (by decide) m (by omega) hpos i hfirst
  rw [List.range_zero, List.map_nil, List.nil_append] at hread
  have hsplit : readLines nullInt [(rowText 0 (ids 0)).take m, [c]] =
      readLine nullInt [c] (readLines nullInt [(rowText 0 (ids 0)).take m]) := rfl
  rw [hlines, hsplit, idAt_readLine_other nullInt [c] _ i hlast, hread, if_neg (Nat.not_lt_zero i)]
  by_cases hi₀ : i = 0
  · subst hi₀
    rw [if_pos rfl, cutId, if_pos rfl, idStart, lineStart_zero, Nat.zero_add, Nat.sub_right_comm, Nat.add_sub_cancel]
  · have hmono := lineStart_mono ids 1 i (by omega)
    rw [if_neg hi₀, cutId_none ids (m + 1) i (by rw [idStart]; omega)]

/-- What the next boot finds after a save that was cut short at any byte: each slot that no line names without an ID
has the number left of its ID in the new table, which is the whole ID if its field is complete and zero if it has not
begun. The old file has no part in it. -/
theorem cut_save_loads (nullInt : U32) (regs : Table) (n : Nat) :
    ∃ r, readDeviceIdFile nullInt (some ((saveDeviceIdFile regs).take n)) zeroTable = (frOk, some r) ∧
      ∀ i < 256, ¬NamedWithoutId ((saveDeviceIdFile regs).take n) i →
        idAt r.regs i = cutId (idAt regs) n i ∧
        (idStart (idAt regs) i + (text 10 (idAt regs i).toNat).length < n → idAt r.regs i = idAt regs i) ∧
        (n ≤ idStart (idAt regs) i → idAt r.regs i = 0#32) := by
  refine ⟨_, readDeviceIdFile_eq nullInt _, ?_⟩
  intro i hi hnamed
  have hcut : idAt (readLines nullInt (fileLines (((saveDeviceIdFile regs).take n).length % 2 ^ 16)
      (((saveDeviceIdFile regs).take n).length + 1) ((saveDeviceIdFile regs).take n))).regs i =
        cutId (idAt regs) n i := by
    rw [saveDeviceIdFile_eq] at hnamed ⊢
    have hbounds := lineStart_bounds (idAt regs)
    by_cases hall : lineStart (idAt regs) nodeCount ≤ n
    · obtain ⟨r, hread, hids, -⟩ := readDeviceIdFile_lines nullInt (idAt regs) zeroTable
      rw [readDeviceIdFile_eq] at hread
      have hend := idEnd_lt (idAt regs) i
      have hmono := lineStart_mono (idAt regs) (i + 1) nodeCount hi
      rw [List.take_of_length_le hall, Option.some.inj (Prod.mk.inj hread).2, hids i hi,
        cutId_whole (idAt regs) n i (by omega)]
    · have hlength : ((linesText (idAt regs) (List.range nodeCount)).take n).length = n :=
        List.length_take_of_le (by rw [lineStart] at hall; omega)
      rw [hlength, Nat.mod_eq_of_lt (by omega)]
      by_cases hfirst : n ≤ lineStart (idAt regs) 1
      · by_cases hshort : n ≤ 1
        · exact idAt_cut_short nullInt (idAt regs) n hshort _ i
        · obtain ⟨m, rfl⟩ : ∃ m, n = m + 1 := ⟨n - 1, by omega⟩
          have hcut := take_lines (idAt regs) (m + 1) 0 nodeCount (by decide) (Nat.zero_le _) hfirst
          rw [lineStart_zero, Nat.sub_zero, List.range_zero, linesText_nil, List.nil_append] at hcut
          rw [hcut] at hnamed ⊢
          exact idAt_cut_first nullInt (idAt regs) m (by omega) hfirst i hnamed
      · exact idAt_cut_later nullInt (idAt regs) n (by omega) (by omega) i hnamed
  refine ⟨hcut, ?_, ?_⟩
  · intro hwhole
    rw [hcut, cutId_whole (idAt regs) n i hwhole]
  · intro hnone
    rw [hcut, cutId_none (idAt regs) n i hnone]

/-- The old file is gone and the new one is still empty: no slot has its old or its new ID. -/
theorem truncated_save_forgets :
    [] <+: saveDeviceIdFile (fun _ => 2#16) ∧
    ∃ r, readDeviceIdFile 0#32 (some []) zeroTable = (frOk, some r) ∧
      ¬∀ i < 256, idAt r.regs i = idAt (fun _ => 1#16) i ∨ idAt r.regs i = idAt (fun _ => 2#16) i := by
  refine ⟨⟨_, List.nil_append _⟩, ⟨zeroTable, []⟩, rfl, ?_⟩
  intro h
  have hfirst := h 0 (by decide)
  revert hfirst
  decide

end Cut

end DataReceiveRelay.CutFile
