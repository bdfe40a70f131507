-- The laws of the line table. The lines of a text, one after the other, are the text, and a later
-- offset never lies on an earlier line.
import SourceMacros.LineTable

namespace SourceMacros

/-! ## The starts of the lines -/

theorem isAscending_push {row : Array Nat} (h : Ascending.IsAscending row) {n : Nat}
    (hn : ∀ i (hi : i < row.size), row[i] ≤ n) : Ascending.IsAscending (row.push n) := by
  intro i j hij hj
  rw [Array.size_push] at hj
  rw [Array.getElem_push, Array.getElem_push]
  by_cases hjr : j < row.size
  · have hir : i < row.size := by omega
    simp only [hir, hjr, dif_pos]
    exact h i j hij hjr
  · simp only [hjr, dif_neg, not_false_eq_true]
    split
    · next hir => exact hn i hir
    · exact Nat.le_refl n

/-- The starts that are found later lie past those found before. -/
theorem startsFrom_isAscending (cs : List Char) {offset : Nat} {found : Array Nat}
    (h : Ascending.IsAscending found) (hle : ∀ i (hi : i < found.size), found[i] ≤ offset) :
    Ascending.IsAscending (startsFrom offset found cs) := by
  induction cs generalizing offset found with
  | nil => exact h
  | cons c cs ih =>
    have hnext : ∀ i (hi : i < found.size), found[i] ≤ offset + c.utf8Size := by
      intro i hi
      have := hle i hi
      omega
    unfold startsFrom
    dsimp only
    split
    · apply ih (isAscending_push h hnext)
      intro i hi
      rw [Array.getElem_push]
      split
      · next hlt => exact hnext i hlt
      · exact Nat.le_refl _
    · exact ih h hnext

namespace LineTable

theorem ofText_starts_isAscending (text : String) :
    Ascending.IsAscending (ofText text).starts := by
  apply startsFrom_isAscending
  · intro i j hij hj
    simp only [List.size_toArray, List.length_cons, List.length_nil] at hj
    have hi : i = 0 := by omega
    have hj : j = 0 := by omega
    subst hi hj
    exact Nat.le_refl _
  · intro i hi
    simp only [List.size_toArray, List.length_cons, List.length_nil] at hi
    have hi : i = 0 := by omega
    subst hi
    exact Nat.le_refl _

end LineTable

/-- A larger number has at least as many numbers of the row below it. -/
theorem Ascending.count_mono {row : Array Nat} (h : IsAscending row) {m n : Nat} (hmn : m ≤ n) :
    count row m ≤ count row n := by
  rcases Nat.eq_zero_or_pos (count row m) with h0 | hpos
  · omega
  · have hsize := count_le_size h m
    have hlt : count row m - 1 < row.size := by omega
    have hle : row[count row m - 1] ≤ m := (lt_count_iff h m hlt).mp (by omega)
    have := (lt_count_iff h n hlt).mpr (Nat.le_trans hle hmn)
    omega

namespace LineTable

/-! ## Positions -/

/-- A later offset lies on the same line or on a later one. -/
theorem position_line_mono (text : String) {a b : Nat} (h : a ≤ b) :
    ((ofText text).position a).line ≤ ((ofText text).position b).line :=
  Ascending.count_mono (ofText_starts_isAscending text) h

/-- A span that ends no later than an offset ends on no later line. -/
theorem endPosition_line_le (text : String) {span : Span} {offset : Nat}
    (h : span.start ≤ span.stop) (hle : span.stop ≤ offset) :
    ((ofText text).endPosition span).line ≤ ((ofText text).position offset).line := by
  unfold endPosition
  split
  · exact position_line_mono text (by omega)
  · exact position_line_mono text (by omega)

/-- A span ends on the line it starts on or on a later one. -/
theorem position_line_le_endPosition (text : String) (span : Span) :
    ((ofText text).position span.start).line ≤ ((ofText text).endPosition span).line := by
  unfold endPosition
  split
  · exact Nat.le_refl _
  · next hlen =>
    unfold Span.length at hlen
    exact position_line_mono text (by omega)

/-! ## The lines -/

/-- The text of a line, or nothing where there is no such line. -/
def lineText (t : LineTable) (n : Nat) : String := (t.line? n).getD ""

/-- The numbers of the lines behind `after`, up to `last`. -/
def numbers (t : LineTable) (after last : Nat) : List Nat :=
  List.range' (after + 1) (min last t.size - after)

theorem mem_numbers (t : LineTable) (after last n : Nat) :
    n ∈ t.numbers after last ↔ after < n ∧ n ≤ last ∧ n ≤ t.size := by
  unfold numbers
  rw [List.mem_range'_1]
  omega

theorem numbers_pairwise (t : LineTable) (after last : Nat) :
    (t.numbers after last).Pairwise (· < ·) := List.pairwise_lt_range'

/-- The lines up to one, and then all the others. -/
theorem numbers_append (t : LineTable) (after middle : Nat) :
    t.numbers after middle ++ t.numbers (max after middle) t.size = t.numbers after t.size := by
  unfold numbers
  rcases Nat.le_total middle after with hle | hle
  · have hnone : min middle t.size - after = 0 := by omega
    rw [hnone, List.range'_zero, List.nil_append, Nat.max_eq_left hle]
  · rw [Nat.max_eq_right hle]
    by_cases hm : middle ≤ t.size
    · have hstart : middle + 1 = after + 1 + (min middle t.size - after) := by omega
      rw [hstart, List.range'_append_1]
      congr 1
      omega
    · have hnone : min t.size t.size - middle = 0 := by omega
      rw [hnone, List.range'_zero, List.append_nil]
      congr 1
      omega

theorem between_eq_join (t : LineTable) (first last : Nat) :
    t.between first last = String.join (t.lines.extract (first - 1) last).toList := by
  unfold between
  split
  · next line heq => rw [heq, String.join_cons, String.join_nil, String.append_empty]
  · rfl

/-- A run of lines is made of its lines. -/
theorem between_eq_join_numbers (t : LineTable) (after last : Nat) :
    t.between (after + 1) last = String.join ((t.numbers after last).map t.lineText) := by
  rw [between_eq_join]
  congr 1
  apply List.ext_getElem
  · simp [numbers, size]
    omega
  · intro i h1 h2
    have hi : after + i < t.lines.size := by
      simp [numbers, size] at h2
      omega
    simp [numbers, lineText, line?, Nat.add_right_comm after 1 i, hi]

/-- All the lines of a text are the text. -/
theorem join_lines (text : String) :
    String.join (((ofText text).numbers 0 (ofText text).size).map (ofText text).lineText) =
      text := by
  rw [← between_eq_join_numbers, between_eq_join]
  have hall : ((ofText text).lines.extract (0 + 1 - 1) (ofText text).size).toList =
      (physicalLines text.toList).map String.ofList := by
    simp [ofText, size, List.take_of_length_le]
  apply String.ext
  rw [hall, String.toList_join, List.flatMap_map]
  simp only [String.toList_ofList]
  rw [List.flatMap_id', flatten_physicalLines]

end LineTable

end SourceMacros
