-- Spliced blocks: a text on lines of its own, each line that is not empty behind an indentation.
-- Where the indentation holds no line break, taking it off the lines gives the text back.
import SourceMacros.Expansion

namespace SourceMacros

namespace Pieces

/-! ## Lines -/

/-- No piece holds the separator. -/
theorem not_mem_split (sep : Char) (cs : List Char) : ∀ piece ∈ split sep cs, sep ∉ piece := by
  induction cs with
  | nil => simp [split]
  | cons c cs ih =>
    rw [split_cons]
    cases hs : split sep cs with
    | nil => exact absurd hs (split_ne_nil sep cs)
    | cons piece pieces =>
      rw [hs] at ih
      by_cases hc : c = sep
      · simpa [grow, hc] using ih
      · simpa [grow, hc, Ne.symm hc] using ih

/-- A piece before a separator is cut off at it. -/
theorem split_append (sep : Char) {piece : List Char} (h : sep ∉ piece) (cs : List Char) :
    split sep (piece ++ sep :: cs) = piece :: split sep cs := by
  induction piece with
  | nil => simp [split_cons, grow]
  | cons c piece ih =>
    rw [List.mem_cons, not_or] at h
    rw [List.cons_append, split_cons, ih h.2]
    simp [grow, Ne.symm h.1]

theorem split_of_not_mem (sep : Char) {piece : List Char} (h : sep ∉ piece) :
    split sep piece = [piece] := by
  induction piece with
  | nil => rfl
  | cons c piece ih =>
    rw [List.mem_cons, not_or] at h
    rw [split_cons, ih h.2]
    simp [grow, Ne.symm h.1]

/-- Splitting undoes joining. -/
theorem split_join (sep : Char) {pieces : List (List Char)} (hne : pieces ≠ [])
    (h : ∀ piece ∈ pieces, sep ∉ piece) : split sep (join sep pieces) = pieces := by
  induction pieces with
  | nil => exact absurd rfl hne
  | cons piece pieces ih =>
    have hpiece := h piece (by simp)
    have hrest : ∀ p ∈ pieces, sep ∉ p := fun p hp => h p (by simp [hp])
    cases pieces with
    | nil => simpa [join] using split_of_not_mem sep hpiece
    | cons next pieces =>
      have hjoin : join sep (piece :: next :: pieces) =
          piece ++ sep :: join sep (next :: pieces) := by simp [join]
      rw [hjoin, split_append sep hpiece, ih (by simp) hrest]

end Pieces

/-! ## Blocks -/

/-- A line behind an indentation. An empty line stays empty. -/
def indentLine (indentation line : List Char) : List Char :=
  if line.isEmpty then [] else indentation ++ line

/-- A line without its indentation. -/
def unindentLine (indentation line : List Char) : List Char :=
  if line.isEmpty then [] else line.drop indentation.length

theorem unindentLine_indentLine (indentation line : List Char) :
    unindentLine indentation (indentLine indentation line) = line := by
  by_cases hline : line = []
  · simp [hline, indentLine, unindentLine]
  · simp [hline, indentLine, unindentLine]

/-- The text of a block: its lines without the indentation, and without the line breaks around
them. -/
def unspliced (indentation : List Char) (block : String) : String :=
  let body := (block.toList.drop 1).dropLast
  String.ofList (Pieces.join '\n' ((Pieces.split '\n' body).map (unindentLine indentation)))

/-- A text as a block: between two line breaks its lines, each behind the indentation unless it is
empty. The text can be read off the block. -/
structure Splices (indentation : List Char) (text block : String) : Prop where
  lines : ∃ lines : List (List Char), lines ≠ [] ∧ (∀ line ∈ lines, '\n' ∉ line) ∧
    text.toList = Pieces.join '\n' lines ∧
    block.toList = '\n' :: Pieces.join '\n' (lines.map (indentLine indentation)) ++ ['\n']
  back : unspliced indentation block = text

/-- What is spliced in for a text. -/
theorem splices_spliced {indentation : List Char} (h : '\n' ∉ indentation) (text : String) :
    Splices indentation text (spliced indentation text) := by
  have hne := Pieces.split_ne_nil '\n' text.toList
  have hlines := Pieces.not_mem_split '\n' text.toList
  have hblock : (spliced indentation text).toList = '\n' :: Pieces.join '\n'
      ((Pieces.split '\n' text.toList).map (indentLine indentation)) ++ ['\n'] := by
    rw [spliced, String.toList_ofList]
    rfl
  have hindented : ∀ line ∈ (Pieces.split '\n' text.toList).map (indentLine indentation),
      '\n' ∉ line := by
    intro line hline
    obtain ⟨source, hsource, rfl⟩ := List.mem_map.mp hline
    unfold indentLine
    split
    · simp
    · simp [h, hlines source hsource]
  refine ⟨⟨_, hne, hlines, (Pieces.join_split '\n' text.toList).symm, hblock⟩, ?_⟩
  rw [unspliced, hblock]
  simp only [List.cons_append, List.drop_succ_cons, List.drop_zero, List.dropLast_concat]
  rw [Pieces.split_join '\n' (by simpa using hne) hindented, List.map_map]
  have hround : unindentLine indentation ∘ indentLine indentation = id := by
    funext line
    exact unindentLine_indentLine indentation line
  rw [hround, List.map_id, Pieces.join_split, String.ofList_toList]

end SourceMacros
