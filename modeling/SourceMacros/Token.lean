-- Tokens: the units that the layout of a source text is made of.
import SourceMacros.LineTable
import SourceMacros.Text.Quoted

namespace SourceMacros

/-- The lexical category of a token. -/
inductive TokenKind where
  /-- An identifier or keyword. -/
  | name
  /-- A numeric literal. -/
  | number
  /-- A string literal with its marks and quotes. -/
  | string
  /-- An operator or delimiter. -/
  | operator
  /-- A hash sign and the rest of the line. -/
  | comment
  /-- The end of a logical line. -/
  | newline
  /-- A line break that ends no logical line: of a blank line, or inside brackets. -/
  | blankBreak
  /-- The start of a deeper block. -/
  | indent
  /-- The end of a block. -/
  | dedent
  /-- The end of the source. -/
  | endMarker
  deriving DecidableEq, Repr

namespace TokenKind

/-- The name a kind is shown by. -/
def label : TokenKind → String
  | name => "NAME"
  | number => "NUMBER"
  | string => "STRING"
  | operator => "OP"
  | comment => "COMMENT"
  | newline => "NEWLINE"
  | blankBreak => "NL"
  | indent => "INDENT"
  | dedent => "DEDENT"
  | endMarker => "ENDMARKER"

/-- Every kind, once. -/
def all : List TokenKind :=
  [name, number, string, operator, comment, newline, blankBreak, indent, dedent, endMarker]

/-- The kind shown by a label. -/
def ofLabel? (text : String) : Option TokenKind := all.find? (·.label == text)

/-- Comments and blank breaks mean nothing to a grammar. -/
def isTrivia : TokenKind → Bool
  | comment => true
  | blankBreak => true
  | _ => false

end TokenKind

/-- A token. Its `line` is the text of every physical line it touches, line breaks included. -/
structure Token where
  kind : TokenKind
  text : String
  start : Position
  stop : Position
  span : Span
  line : String
  deriving DecidableEq, Repr

namespace Token

/-- A name spelled exactly so. -/
def isName (t : Token) (text : String) : Bool := t.kind == .name && t.text == text

/-- Kind, quoted text and position, as shown to a reader. -/
def display (t : Token) : String :=
  t.kind.label ++ " " ++ Quoted.quote t.text ++ " at " ++ toString t.start.line ++ ":" ++
    toString t.start.column

/-- A token of the given kind, text and span, with its positions and lines looked up. -/
def place (table : LineTable) (kind : TokenKind) (text : String) (span : Span) : Token :=
  let start := table.position span.start
  let stop := table.endPosition span
  { kind, text, start, stop, span, line := table.between start.line stop.line }

end Token

end SourceMacros
