-- Cutting a text at every occurrence of one character, and putting the pieces together again.
namespace SourceMacros

namespace Pieces

/-- The pieces of a text with one more character in front. -/
def grow (sep c : Char) (pieces : List (List Char)) : List (List Char) :=
  if c = sep then [] :: pieces
  else
    match pieces with
    | [] => [[c]]
    | piece :: pieces => (c :: piece) :: pieces

/-- The pieces of a text between the separators. There is one piece more than there are
separators, so the empty text is one empty piece. -/
def split (sep : Char) (cs : List Char) : List (List Char) := cs.foldr (grow sep) [[]]

/-- The pieces with one separator between neighbours. -/
def join (sep : Char) : List (List Char) → List Char
  | [] => []
  | piece :: pieces => piece ++ pieces.flatMap (sep :: ·)

/-- The pieces of a string. -/
def splitText (sep : Char) (text : String) : List String :=
  (split sep text.toList).map String.ofList

/-- The string made of the pieces. -/
def joinText (sep : Char) : List String → String
  | [] => ""
  | piece :: pieces => pieces.foldl (fun text next => text.push sep ++ next) piece

theorem split_cons (sep c : Char) (cs : List Char) :
    split sep (c :: cs) = grow sep c (split sep cs) := rfl

theorem grow_ne_nil (sep c : Char) (pieces : List (List Char)) : grow sep c pieces ≠ [] := by
  unfold grow
  split
  · simp
  · split <;> simp

theorem split_ne_nil (sep : Char) (cs : List Char) : split sep cs ≠ [] := by
  cases cs with
  | nil => simp [split]
  | cons c cs => exact grow_ne_nil sep c (split sep cs)

/-- Joining undoes splitting. -/
theorem join_split (sep : Char) (cs : List Char) : join sep (split sep cs) = cs := by
  induction cs with
  | nil => rfl
  | cons c cs ih =>
    rw [split_cons]
    cases hs : split sep cs with
    | nil => exact absurd hs (split_ne_nil sep cs)
    | cons piece pieces =>
      rw [hs] at ih
      unfold grow
      split
      · next h => simpa [join, h] using ih
      · simpa [join] using ih

theorem toList_foldl_push (sep : Char) (text : String) (pieces : List String) :
    (pieces.foldl (fun text next => text.push sep ++ next) text).toList =
      text.toList ++ (pieces.map String.toList).flatMap (sep :: ·) := by
  induction pieces generalizing text with
  | nil => simp
  | cons piece pieces ih => simp [ih]

/-- The characters of a joined string are those of its pieces, joined. -/
theorem toList_joinText (sep : Char) (pieces : List String) :
    (joinText sep pieces).toList = join sep (pieces.map String.toList) := by
  cases pieces with
  | nil => rfl
  | cons piece pieces => exact toList_foldl_push sep piece pieces

end Pieces

end SourceMacros
