-- Line feeds tell where an offset stands: its line is one more than the line feeds before it, and
-- its column counts the bytes from the start of that line. The table of lines finds both, whatever
-- the text and the offset.
import SourceMacros.Proofs.Coverage

namespace SourceMacros

/-! ## Bytes -/

/-- The bytes of a text. -/
def bytes (text : String) : List UInt8 := text.toUTF8.data.toList

/-- The byte that ends a line. -/
def lineFeed : UInt8 := 10

theorem bytes_ofList (cs : List Char) :
    bytes (String.ofList cs) = cs.flatMap String.utf8EncodeChar := by
  simp [bytes, List.utf8Encode]

theorem lineFeed_eq_ofNat {n : Nat} (h : n < 256) : lineFeed = UInt8.ofNat n ↔ n = 10 := by
  rw [lineFeed, ← UInt8.toNat_inj, UInt8.toNat_ofNat_of_lt' h, eq_comm]
  rfl

/-- A character has the byte of a line feed only if it is one. -/
theorem count_utf8EncodeChar (c : Char) :
    (String.utf8EncodeChar c).count lineFeed = if c = '\n' then 1 else 0 := by
  have hc : c = '\n' ↔ c.val.toNat = 10 := by
    rw [← Char.toNat_inj]
    rfl
  have hlarge {n : Nat} (hlow : 128 ≤ n) (hhigh : n < 256) : lineFeed ≠ UInt8.ofNat n := by
    rw [Ne, lineFeed_eq_ofNat hhigh]
    omega
  simp only [hc]
  rw [String.utf8EncodeChar.eq_1]
  by_cases hone : c.val.toNat ≤ 127
  · simp only [hone, if_true, List.count_singleton, beq_iff_eq, eq_comm (b := lineFeed),
      lineFeed_eq_ofNat (n := c.val.toNat) (by omega)]
  -- Of the bytes of a longer character each is too large.
  rw [if_neg hone, if_neg (by omega : ¬ c.val.toNat = 10), List.count_eq_zero]
  split
  · simp only [List.mem_cons, List.not_mem_nil, or_false, not_or]
    exact ⟨hlarge (by omega) (by omega), hlarge (by omega) (by omega)⟩
  split
  · simp only [List.mem_cons, List.not_mem_nil, or_false, not_or]
    exact ⟨hlarge (by omega) (by omega), hlarge (by omega) (by omega), hlarge (by omega) (by omega)⟩
  · simp only [List.mem_cons, List.not_mem_nil, or_false, not_or]
    exact ⟨hlarge (by omega) (by omega), hlarge (by omega) (by omega), hlarge (by omega) (by omega),
      hlarge (by omega) (by omega)⟩

theorem byteLength_toList (text : String) : byteLength text.toList = text.utf8ByteSize := by
  rw [← size_toByteArray_ofList, String.ofList_toList]
  rfl

theorem length_bytes (cs : List Char) : (bytes (String.ofList cs)).length = byteLength cs := by
  rw [← size_toByteArray_ofList]
  rfl

@[simp]
theorem bytes_append (cs ds : List Char) :
    bytes (String.ofList (cs ++ ds)) = bytes (String.ofList cs) ++ bytes (String.ofList ds) := by
  simp only [bytes_ofList, List.flatMap_append]

/-- A text has as many bytes of line feeds as line feeds. -/
theorem count_bytes (cs : List Char) :
    (bytes (String.ofList cs)).count lineFeed = cs.count '\n' := by
  induction cs with
  | nil => rfl
  | cons c cs ih =>
    rw [bytes_ofList] at ih ⊢
    rw [List.flatMap_cons, List.count_append, ih, count_utf8EncodeChar, List.count_cons,
      Nat.add_comm]
    simp

/-- How many line feeds come before an offset. -/
def feedsBefore (text : String) (offset : Nat) : Nat := ((bytes text).take offset).count lineFeed

theorem feedsBefore_mono (text : String) {m n : Nat} (h : m ≤ n) :
    feedsBefore text m ≤ feedsBefore text n :=
  (List.take_prefix_take_left h).sublist.count_le lineFeed

theorem feedsBefore_le (cs : List Char) (offset : Nat) :
    feedsBefore (String.ofList cs) offset ≤ cs.count '\n' := by
  rw [← count_bytes]
  exact (List.take_sublist _ _).count_le lineFeed

/-- The line feeds of a beginning of a text come before its end. -/
theorem feedsBefore_front {front cs : List Char} (h : front <+: cs) :
    feedsBefore (String.ofList cs) (byteLength front) = front.count '\n' := by
  obtain ⟨rest, rfl⟩ := h
  rw [feedsBefore, bytes_append, ← length_bytes, List.take_left, count_bytes]

theorem feedsBefore_succ {text : String} {i : Nat} (h : (bytes text)[i]? = some lineFeed) :
    feedsBefore text (i + 1) = feedsBefore text i + 1 := by
  simp [feedsBefore, List.take_add_one, h]

theorem getElem?_bytes_front {front cs : List Char} (h : front ++ ['\n'] <+: cs) :
    (bytes (String.ofList cs))[byteLength front]? = some lineFeed := by
  obtain ⟨rest, rfl⟩ := h
  rw [List.append_assoc, bytes_append, bytes_append, ← length_bytes,
    List.getElem?_append_right (Nat.le_refl _), Nat.sub_self]
  rfl

/-! ## The first lines of a text -/

/-- The first lines of a text, one after the other. -/
def firstLines (n : Nat) (cs : List Char) : List Char := ((physicalLines cs).take n).flatten

@[simp]
theorem firstLines_zero (cs : List Char) : firstLines 0 cs = [] := by simp [firstLines]

@[simp]
theorem firstLines_nil (n : Nat) : firstLines n [] = [] := by simp [firstLines, physicalLines]

@[simp]
theorem firstLines_feed (n : Nat) (cs : List Char) :
    firstLines (n + 1) ('\n' :: cs) = '\n' :: firstLines n cs := by
  simp [firstLines, physicalLines, growLines]

theorem firstLines_cons (n : Nat) {c : Char} (h : c ≠ '\n') (cs : List Char) :
    firstLines (n + 1) (c :: cs) = c :: firstLines (n + 1) cs := by
  simp only [firstLines, physicalLines, List.foldr_cons]
  unfold growLines
  rw [if_neg h]
  split
  · next hnone => simp [hnone]
  · next hlines => simp [hlines]

variable (n : Nat) (cs : List Char)

theorem firstLines_begins : firstLines n cs <+: cs := by
  have hall := LineTable.flatten_physicalLines cs
  rw [← List.take_append_drop n (physicalLines cs), List.flatten_append] at hall
  exact ⟨_, hall⟩

theorem count_firstLines : (firstLines n cs).count '\n' = min n (cs.count '\n') := by
  induction cs generalizing n with
  | nil => simp
  | cons c cs ih =>
    cases n with
    | zero => simp
    | succ n =>
      by_cases hc : c = '\n'
      · subst hc
        simp only [firstLines_feed, List.count_cons_self, ih]
        omega
      · rw [firstLines_cons n hc, List.count_cons_of_ne hc, List.count_cons_of_ne hc, ih]

/-- A text that has no more line breaks has no more lines. -/
theorem firstLines_of_lt {n : Nat} (h : cs.count '\n' < n) : firstLines n cs = cs := by
  induction cs generalizing n with
  | nil => simp
  | cons c cs ih =>
    obtain ⟨n, rfl⟩ : ∃ m, n = m + 1 := ⟨n - 1, by omega⟩
    by_cases hc : c = '\n'
    · subst hc
      rw [List.count_cons_self] at h
      rw [firstLines_feed, ih (by omega)]
    · rw [List.count_cons_of_ne hc] at h
      rw [firstLines_cons n hc, ih h]

/-- Each line but the last ends with its line break. -/
theorem exists_firstLines {n : Nat} (h : n < cs.count '\n') :
    ∃ front, firstLines (n + 1) cs = front ++ ['\n'] := by
  induction cs generalizing n with
  | nil => simp at h
  | cons c cs ih =>
    by_cases hc : c = '\n'
    · subst hc
      cases n with
      | zero => exact ⟨[], by simp⟩
      | succ n =>
        obtain ⟨front, hfront⟩ := ih (n := n) (by rw [List.count_cons_self] at h; omega)
        exact ⟨'\n' :: front, by simp [hfront]⟩
    · obtain ⟨front, hfront⟩ := ih (n := n) (by rwa [List.count_cons_of_ne hc] at h)
      exact ⟨c :: front, by rw [firstLines_cons n hc, hfront, List.cons_append]⟩

/-- The starts of lines: each line starts where those before it end. -/
theorem toList_startsFrom (offset : Nat) (found : Array Nat) :
    (startsFrom offset found cs).toList = found.toList ++
      (List.range (cs.count '\n')).map fun k => offset + byteLength (firstLines (k + 1) cs) := by
  induction cs generalizing offset found with
  | nil => simp [startsFrom]
  | cons c cs ih =>
    unfold startsFrom
    dsimp only
    rw [ih]
    have hcons (front : List Char) : byteLength (c :: front) = c.utf8Size + byteLength front := rfl
    by_cases hc : c = '\n'
    · subst hc
      simp only [if_true, Array.toList_push, List.append_assoc, List.count_cons_self,
        List.range_succ_eq_map, List.map_cons, List.map_map, firstLines_feed, firstLines_zero,
        hcons, byteLength_nil, List.cons_append, List.nil_append, Function.comp_def,
        Nat.succ_eq_add_one, Nat.add_assoc, Nat.add_zero]
    · simp only [if_neg hc, List.count_cons_of_ne hc, firstLines_cons _ hc, hcons, Nat.add_assoc]

namespace LineTable

/-! ## Positions -/

variable (text : String)

theorem ofText_starts : (ofText text).starts.toList =
    (List.range (text.toList.count '\n' + 1)).map fun k =>
      byteLength (firstLines k text.toList) := by
  simp only [ofText, toList_startsFrom, List.range_succ_eq_map, List.map_cons, List.map_map,
    firstLines_zero, byteLength_nil, Function.comp_def, Nat.succ_eq_add_one, Nat.zero_add,
    List.singleton_append]

theorem size_starts : (ofText text).starts.size = text.toList.count '\n' + 1 := by
  rw [← Array.length_toList, ofText_starts, List.length_map, List.length_range]

theorem getElem?_starts {k : Nat} (h : k ≤ text.toList.count '\n') :
    (ofText text).starts[k]? = some (byteLength (firstLines k text.toList)) := by
  rw [← Array.getElem?_toList, ofText_starts, List.getElem?_map, List.getElem?_range (by omega)]
  rfl

/-- How the position of an offset is made up: whole lines, and then bytes of its own line. -/
structure Found (cs : List Char) (offset : Nat) (p : Position) : Prop where
  pos : 0 < p.line
  le : p.line ≤ cs.count '\n' + 1
  column : byteLength (firstLines (p.line - 1) cs) + p.column = offset
  /-- The offset lies before the end of its line, unless that is the last one. -/
  within : p.line ≤ cs.count '\n' → offset < byteLength (firstLines p.line cs)

theorem position_found (offset : Nat) :
    Found text.toList offset ((ofText text).position offset) := by
  have hasc := ofText_starts_isAscending text
  have hsize := size_starts text
  have hstart (k : Nat) (hk : k < (ofText text).starts.size) :
      (ofText text).starts[k] = byteLength (firstLines k text.toList) := by
    have hsome := getElem?_starts text (k := k) (by omega)
    rw [Array.getElem?_eq_getElem hk] at hsome
    exact Option.some.inj hsome
  have hle := Ascending.count_le_size hasc offset
  have hpos : 0 < Ascending.count (ofText text).starts offset := by
    rw [Ascending.lt_count_iff hasc offset (by omega), hstart 0 (by omega)]
    simp
  generalize hline : Ascending.count (ofText text).starts offset = line at hle hpos
  have hbefore : byteLength (firstLines (line - 1) text.toList) ≤ offset := by
    rw [← hstart _ (by omega), ← Ascending.lt_count_iff hasc offset (by omega)]
    omega
  have hposition : (ofText text).position offset =
      ⟨line, offset - byteLength (firstLines (line - 1) text.toList)⟩ := by
    simp only [position, hline, getElem?_starts text (k := line - 1) (by omega), Option.getD_some]
  rw [hposition]
  refine ⟨hpos, ?_, ?_, fun hmore => ?_⟩ <;> dsimp only at *
  · omega
  · omega
  · rw [← hstart line (by omega), ← Nat.not_le,
      ← Ascending.lt_count_iff hasc offset (by omega), hline]
    omega

end LineTable

/-- The place of an offset, told by the line feeds of a text: its line is one more than the line
feeds before it, and starts right behind the last of them, or with the text. -/
structure IsPlace (text : String) (offset : Nat) (p : Position) : Prop where
  line : p.line = feedsBefore text offset + 1
  column_le : p.column ≤ offset
  start : offset - p.column = 0 ∨ (bytes text)[offset - p.column - 1]? = some lineFeed
  unbroken : ∀ i, offset - p.column ≤ i → i < offset → (bytes text)[i]? ≠ some lineFeed

/-- As many line feeds come before an offset as whole lines do. -/
theorem LineTable.Found.feedsBefore_eq {cs : List Char} {offset : Nat} {p : Position}
    (h : Found cs offset p) : feedsBefore (String.ofList cs) offset = p.line - 1 := by
  obtain ⟨hpos, hle, hcolumn, hwithin⟩ := h
  apply Nat.le_antisymm
  · by_cases hlast : p.line ≤ cs.count '\n'
    · -- The line feed that ends the line does not come before the offset.
      obtain ⟨front, hfront⟩ := exists_firstLines cs (n := p.line - 1) (by omega)
      rw [Nat.sub_add_cancel hpos] at hfront
      have hcount := count_firstLines p.line cs
      have hoffset := hwithin hlast
      rw [hfront, byteLength_append] at hoffset
      rw [hfront, List.count_append, List.count_singleton_self] at hcount
      have hprefix : front <+: cs :=
        (List.prefix_append _ _).trans (hfront ▸ firstLines_begins p.line cs)
      calc feedsBefore (String.ofList cs) offset
          ≤ feedsBefore (String.ofList cs) (byteLength front) :=
            feedsBefore_mono _ (Nat.lt_succ_iff.mp hoffset)
        _ = front.count '\n' := feedsBefore_front hprefix
        _ ≤ p.line - 1 := by omega
    · have := feedsBefore_le cs offset
      omega
  · calc p.line - 1 = (firstLines (p.line - 1) cs).count '\n' := by rw [count_firstLines]; omega
      _ = feedsBefore (String.ofList cs) (byteLength (firstLines (p.line - 1) cs)) :=
        (feedsBefore_front (firstLines_begins _ cs)).symm
      _ ≤ feedsBefore (String.ofList cs) offset := feedsBefore_mono _ (by omega)

theorem LineTable.Found.isPlace {cs : List Char} {offset : Nat} {p : Position}
    (h : Found cs offset p) : IsPlace (String.ofList cs) offset p := by
  have hfeeds := h.feedsBefore_eq
  obtain ⟨hpos, hle, hcolumn, hwithin⟩ := h
  have hstart : offset - p.column = byteLength (firstLines (p.line - 1) cs) := by omega
  refine ⟨by omega, by omega, ?_, ?_⟩
  · by_cases hfirst : p.line - 1 = 0
    · left
      rw [hstart, hfirst, firstLines_zero, byteLength_nil]
    · right
      obtain ⟨front, hfront⟩ := exists_firstLines cs (n := p.line - 2) (by omega)
      rw [show p.line - 2 + 1 = p.line - 1 by omega] at hfront
      rw [hstart, hfront, byteLength_append]
      exact getElem?_bytes_front (hfront ▸ firstLines_begins _ cs)
  · intro i hlow hhigh hbyte
    have hsucc := feedsBefore_succ hbyte
    have hupper := feedsBefore_mono (String.ofList cs) (m := i + 1) hhigh
    have hlower := feedsBefore_mono (String.ofList cs) hlow
    rw [hstart, feedsBefore_front (firstLines_begins _ cs), count_firstLines] at hlower
    omega

end SourceMacros
