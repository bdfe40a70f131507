-- Layout: from lexemes to tokens. Blocks are marked by tokens of their own, and a line break
-- ends a logical line only outside brackets and after something that means anything.
--
-- The pass is a run of one step per lexeme. A step gives the tokens it adds and the state
-- after it.
import SourceMacros.Lexeme
import SourceMacros.SyntaxFault
import SourceMacros.Token

namespace SourceMacros

/-- A token before its positions are looked up. -/
structure Mark where
  kind : TokenKind
  text : String
  span : Span
  deriving DecidableEq, Repr

/-- A fault before its line is looked up, which is the line of the offset `place`. -/
structure LayoutFault where
  cause : SyntaxCause
  found : String
  place : Nat
  span : Span
  deriving DecidableEq, Repr

/-- What the layout pass remembers between lexemes. -/
structure Layout where
  /-- The indentation of the open blocks, the innermost first. The outermost level, which has
  none, is left out. -/
  blocks : List (List Char) := []
  /-- The open brackets and their spans, the innermost first. -/
  brackets : List (Char × Span) := []
  /-- Nothing that means anything has come on this logical line. -/
  atLineStart : Bool := true
  /-- The last run of blanks at the start of this logical line. -/
  lineIndent : List Char := []
  deriving DecidableEq, Repr

namespace Layout

/-- The indentation of the innermost block. -/
def current (s : Layout) : List Char := s.blocks.headD []

/-- The marks that close the blocks deeper than `depth`, all at one offset, and the blocks left.
Each carries the indentation that its block added. -/
def closeBlocks (depth offset : Nat) : List (List Char) → List Mark × List (List Char)
  | [] => ([], [])
  | block :: outer =>
    if depth < block.length then
      let added := block.drop (outer.headD []).length
      let (marks, left) := closeBlocks depth offset outer
      (⟨.dedent, String.ofList added, .point offset⟩ :: marks, left)
    else ([], block :: outer)

/-- The marks for a logical line whose first token starts at `first`. A longer indentation opens
one block; a shorter one closes blocks until it meets the indentation of an open one. -/
def indentation (s : Layout) (first : Nat) : Except LayoutFault (List Mark × Layout) :=
  let indent := s.lineIndent
  let s := { s with lineIndent := [] }
  if indent = s.current then .ok ([], s)
  else
    let lineStart := first - indent.length
    if s.current.length < indent.length ∧ s.current.isPrefixOf indent then
      let span : Span := ⟨lineStart + s.current.length, first⟩
      let added := indent.drop s.current.length
      .ok ([⟨.indent, String.ofList added, span⟩], { s with blocks := indent :: s.blocks })
    else
      let (marks, left) := closeBlocks indent.length first s.blocks
      if left.headD [] = indent then .ok (marks, { s with blocks := left })
      else .error ⟨.unindentMismatch, String.ofList indent, first, ⟨lineStart, first⟩⟩

/-- The opening bracket that a closing one answers. -/
def opener? : Char → Option Char
  | ')' => some '('
  | ']' => some '['
  | '}' => some '{'
  | _ => none

/-- Keeps account of brackets at an operator. -/
def bracket (s : Layout) (text : List Char) (span : Span) : Except LayoutFault Layout :=
  match text with
  | [c] =>
    if c = '(' ∨ c = '[' ∨ c = '{' then .ok { s with brackets := (c, span) :: s.brackets }
    else
      match opener? c with
      | none => .ok s
      | some wanted =>
        match s.brackets with
        | (found, _) :: outer =>
          if found = wanted then .ok { s with brackets := outer }
          else .error ⟨.unmatched c.toString, c.toString, span.start, span⟩
        | [] => .error ⟨.unmatched c.toString, c.toString, span.start, span⟩
  | _ => .ok s

/-- A lexeme that means something: it may open or close blocks when it is the first of its
logical line. -/
def significant (s : Layout) (kind : TokenKind) (text : List Char) (span : Span) :
    Except LayoutFault (List Mark × Layout) := do
  let (marks, s) ←
    if s.atLineStart ∧ s.brackets = [] then s.indentation span.start else .ok ([], s)
  let s := { s with atLineStart := false }
  let s ← if kind = .operator then s.bracket text span else .ok s
  return (marks ++ [⟨kind, String.ofList text, span⟩], s)

/-- One lexeme: the marks it adds and the state after it. -/
def step (s : Layout) (lexeme : Lexeme) (span : Span) : Except LayoutFault (List Mark × Layout) :=
  match lexeme.kind with
  | .blank =>
    if s.atLineStart ∧ s.brackets = [] then .ok ([], { s with lineIndent := lexeme.text })
    else .ok ([], s)
  | .joinedBreak => .ok ([], s)
  | .comment => .ok ([⟨.comment, String.ofList lexeme.text, span⟩], s)
  | .lineBreak =>
    if s.brackets = [] then
      let kind := if s.atLineStart then .blankBreak else .newline
      .ok ([⟨kind, String.ofList lexeme.text, span⟩],
        { s with atLineStart := true, lineIndent := [] })
    else .ok ([⟨.blankBreak, String.ofList lexeme.text, span⟩], s)
  | .name => s.significant .name lexeme.text span
  | .number => s.significant .number lexeme.text span
  | .string => s.significant .string lexeme.text span
  | .operator => s.significant .operator lexeme.text span

/-- The end of the source: the last logical line and every open block are closed there. -/
def finish (s : Layout) (offset : Nat) : Except LayoutFault (List Mark) :=
  match s.brackets with
  | (c, span) :: _ => .error ⟨.neverClosed c, c.toString, span.start, span⟩
  | [] =>
    let line := if s.atLineStart then [] else [⟨.newline, "", .point offset⟩]
    let (closed, _) := closeBlocks 0 offset s.blocks
    .ok (line ++ closed ++ [⟨.endMarker, "", .point offset⟩])

/-- The fault of the scanner at an offset. -/
def scanFault (offset : Nat) : ScanFault → LayoutFault
  | .unterminated opening =>
    ⟨.unterminatedString, String.ofList opening, offset, ⟨offset, offset + byteLength opening⟩⟩
  | .unexpected c =>
    ⟨.unexpectedCharacter, c.toString, offset, ⟨offset, offset + c.utf8Size⟩⟩

/-- The whole pass over the lexemes from an offset on, behind the marks in `found`. A fault of the
scanner counts only after every lexeme before it. -/
def run (s : Layout) (offset : Nat) (found : Array Mark) :
    List Lexeme → Option ScanFault → Except LayoutFault (Array Mark)
  | [], none => (s.finish offset).map fun marks => found ++ marks.toArray
  | [], some fault => .error (scanFault offset fault)
  | lexeme :: rest, fault =>
    let next := offset + byteLength lexeme.text
    match s.step lexeme ⟨offset, next⟩ with
    | .error fault => .error fault
    | .ok (marks, s) => s.run next (found ++ marks.toArray) rest fault

/-- The marks of a text. -/
def marks (text : String) : Except LayoutFault (Array Mark) :=
  let (lexemes, fault) := Lexeme.scan text.toList
  ({} : Layout).run 0 #[] lexemes.toList fault

/-- The marks found before stay in front. -/
theorem run_eq_map (s : Layout) (offset : Nat) (found : Array Mark) (lexemes : List Lexeme)
    (fault : Option ScanFault) :
    s.run offset found lexemes fault = (s.run offset #[] lexemes fault).map (found ++ ·) := by
  induction lexemes generalizing s offset found with
  | nil =>
    cases fault with
    | none => cases h : s.finish offset <;> simp [run, h, Except.map]
    | some fault => rfl
  | cons lexeme rest ih =>
    simp only [run]
    split
    · rfl
    · next marks s _ =>
      rw [ih s _ (found ++ marks.toArray), ih s _ (#[] ++ marks.toArray)]
      cases s.run (offset + byteLength lexeme.text) #[] rest fault <;>
        simp [Except.map, Array.append_assoc]

end Layout

/-- A fault with its line looked up and its source named. -/
def LayoutFault.locate (f : LayoutFault) (source : String) (table : LineTable) : SyntaxFault where
  cause := f.cause
  found := f.found
  line := (table.position f.place).line
  source := source
  span := f.span

/-- The tokens of a source text. -/
def tokenize (name text : String) : Except SyntaxFault (List Token) :=
  let table := LineTable.ofText text
  match Layout.marks text with
  | .ok marks => .ok (marks.toList.map fun m => Token.place table m.kind m.text m.span)
  | .error fault => .error (fault.locate name table)

end SourceMacros
