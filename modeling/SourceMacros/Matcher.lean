-- Matchers: what a grammar asks of one token.
import SourceMacros.Token

namespace SourceMacros

/-- Asks for a kind, a text, both or neither. -/
structure Matcher where
  kind : Option TokenKind := none
  text : Option String := none
  deriving DecidableEq, Repr

namespace Matcher

/-- Any token of a kind. -/
def ofKind (kind : TokenKind) : Matcher := ⟨some kind, none⟩

/-- A name spelled exactly so. -/
def name (text : String) : Matcher := ⟨some .name, some text⟩

/-- An operator spelled exactly so. -/
def operator (text : String) : Matcher := ⟨some .operator, some text⟩

/-- The token has what the matcher asks for. -/
def accepts (m : Matcher) (t : Token) : Bool :=
  m.kind.all (· == t.kind) && m.text.all (· == t.text)

end Matcher

end SourceMacros
