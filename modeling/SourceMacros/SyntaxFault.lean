-- Faults in the shape of a source text, each with the place it points at.
import SourceMacros.Position

namespace SourceMacros

/-- What is wrong with a source text at one place. -/
inductive SyntaxCause where
  /-- A string literal is not closed. -/
  | unterminatedString
  /-- A character starts no token. -/
  | unexpectedCharacter
  /-- A line steps back to an indentation that no open block has. -/
  | unindentMismatch
  /-- A closing bracket meets no opening bracket of its kind. -/
  | unmatched (bracket : String)
  /-- An opening bracket is still open at the end of the source. -/
  | neverClosed (bracket : Char)
  /-- A grammar wants something other than the token that stands there. -/
  | expected (context found : String)
  deriving DecidableEq, Repr

namespace SyntaxCause

def message : SyntaxCause → String
  | unterminatedString => "unterminated string literal"
  | unexpectedCharacter => "unexpected character"
  | unindentMismatch => "unindent does not match any outer indentation level"
  | unmatched bracket => "unmatched '" ++ bracket ++ "'"
  | neverClosed bracket => "'" ++ bracket.toString ++ "' was never closed"
  | expected context found => context ++ ", found '" ++ found ++ "'"

end SyntaxCause

/-- A fault, the text found there, its line, and the name and span of the source. -/
structure SyntaxFault where
  cause : SyntaxCause
  found : String
  line : Nat
  source : String
  span : Span
  deriving DecidableEq, Repr

namespace SyntaxFault

def message (f : SyntaxFault) : String :=
  "Syntax error at line " ++ toString f.line ++ ": " ++ f.cause.message

/-- The words that mark the place of a fault. -/
def label : String := "error found here"

end SyntaxFault

end SourceMacros
