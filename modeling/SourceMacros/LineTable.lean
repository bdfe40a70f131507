-- The physical lines of a source text: where each one starts and what it reads.
-- A line ends with its line feed, and only the last line may lack one.
import SourceMacros.Ascending
import SourceMacros.Position

namespace SourceMacros

/-- The bytes of a text. -/
def byteLength (cs : List Char) : Nat := cs.foldr (fun c n => c.utf8Size + n) 0

/-- The lines of a text with one more character in front. -/
def growLines (c : Char) (lines : List (List Char)) : List (List Char) :=
  if c = '\n' then [c] :: lines
  else
    match lines with
    | [] => [[c]]
    | line :: lines => (c :: line) :: lines

/-- The physical lines of a text, each with the line feed that ends it. The empty text has none. -/
def physicalLines (cs : List Char) : List (List Char) := cs.foldr growLines []

/-- The offsets in `found`, and behind them those just past each line feed of a text that starts at
`offset`. -/
def startsFrom (offset : Nat) (found : Array Nat) : List Char → Array Nat
  | [] => found
  | c :: cs =>
    let next := offset + c.utf8Size
    startsFrom next (if c = '\n' then found.push next else found) cs

/-- Line starts and line texts. There is a start past a final line feed, but no line there,
so the starts may be one more than the lines. -/
structure LineTable where
  starts : Array Nat
  lines : Array String

namespace LineTable

def ofText (text : String) : LineTable where
  starts := startsFrom 0 #[0] text.toList
  lines := ((physicalLines text.toList).map String.ofList).toArray

/-- The number of physical lines. -/
def size (t : LineTable) : Nat := t.lines.size

/-- The position of a byte offset: the last line that starts no later than the offset, and the
distance from its start. -/
def position (t : LineTable) (offset : Nat) : Position :=
  let line := Ascending.count t.starts offset
  ⟨line, offset - t.starts[line - 1]?.getD 0⟩

/-- The position just past the last byte of a span, on the line of that byte. For an empty span
it is the position of its start. -/
def endPosition (t : LineTable) (span : Span) : Position :=
  if span.length = 0 then t.position span.start
  else
    let last := t.position (span.stop - 1)
    ⟨last.line, last.column + 1⟩

/-- The text of a line, counted from 1. -/
def line? (t : LineTable) (n : Nat) : Option String :=
  if n = 0 then none else t.lines[n - 1]?

/-- The text of the lines from `first` to `last`, both included. Lines that do not exist add
nothing. -/
def between (t : LineTable) (first last : Nat) : String :=
  match (t.lines.extract (first - 1) last).toList with
  | [line] => line
  | lines => String.join lines

/-! ## Laws -/

/-- The lines hold the text and nothing else. -/
theorem flatten_physicalLines (cs : List Char) : (physicalLines cs).flatten = cs := by
  induction cs with
  | nil => rfl
  | cons c cs ih =>
    rw [physicalLines, List.foldr_cons, ← physicalLines]
    unfold growLines
    split
    · simp [ih]
    · split
      · next h => rw [h] at ih; simpa using ih
      · next h => rw [h] at ih; simpa using ih

end LineTable

end SourceMacros
