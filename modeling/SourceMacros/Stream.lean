-- Token streams: the tokens of one source that mean something, and a cursor that only moves
-- forward. The host pass and every plugin share one stream.
import SourceMacros.Error
import SourceMacros.Layout
import SourceMacros.Matcher

namespace SourceMacros

/-- The tokens before the final end marker, the end marker, and the index of the next token.
The source is kept for messages and for its lines. -/
structure Stream where
  front : Array Token
  last : Token
  last_kind : last.kind = .endMarker
  cursor : Nat
  source : String
  lines : LineTable

namespace Stream

/-- An end marker just past a token, or at the very start. -/
def endAfter (t : Option Token) : Token :=
  let stop := (t.map Token.stop).getD ⟨0, 0⟩
  let offset := (t.map (·.span.stop)).getD 0
  { kind := .endMarker, text := "", start := stop, stop, span := .point offset, line := "" }

/-- A stream over the tokens that are no trivia. An end marker is added when the last of them
is none. -/
def ofTokens (tokens : List Token) (source text : String) : Stream :=
  let kept := tokens.filter (!·.kind.isTrivia)
  let lines := LineTable.ofText text
  match kept.getLast? with
  | none => ⟨#[], endAfter none, rfl, 0, source, lines⟩
  | some t =>
    if h : t.kind = .endMarker then ⟨kept.dropLast.toArray, t, h, 0, source, lines⟩
    else ⟨kept.toArray, endAfter (some t), rfl, 0, source, lines⟩

/-- The stream of a source text. -/
def ofSource (name text : String) : Except SyntaxFault Stream :=
  (tokenize name text).map fun tokens => ofTokens tokens name text

/-- Every token, the end marker included. -/
def tokens (s : Stream) : List Token := s.front.toList ++ [s.last]

/-- The number of tokens, the end marker included. -/
def size (s : Stream) : Nat := s.front.size + 1

/-- The token at an index; past the end it is the end marker. -/
def tokenAt (s : Stream) (i : Nat) : Token := s.front[i]?.getD s.last

/-- The token under the cursor. -/
def peek (s : Stream) : Token := s.tokenAt s.cursor

/-- The token before the cursor, or the first one. -/
def previous (s : Stream) : Token := s.tokenAt (s.cursor - 1)

/-- The cursor stands on an end marker. -/
def atEnd (s : Stream) : Bool := s.peek.kind == .endMarker

/-- The stream after the token under the cursor. At an end marker nothing moves. -/
def skip (s : Stream) : Stream := if s.atEnd then s else { s with cursor := s.cursor + 1 }

/-- The token under the cursor and the stream after it. -/
def advance (s : Stream) : Token × Stream := (s.peek, s.skip)

/-- The next token, if the end is not reached, and the stream after it. -/
def next (s : Stream) : Option Token × Stream :=
  if s.atEnd then (none, s) else (some s.peek, s.skip)

/-- The token under the cursor is wanted. An end marker never is. -/
def check (s : Stream) (m : Matcher) : Bool := !s.atEnd && m.accepts s.peek

/-- Moves past the token under the cursor if one of the matchers accepts it. -/
def tryMatch (s : Stream) (ms : List Matcher) : Bool × Stream :=
  if ms.any s.check then (true, s.skip) else (false, s)

/-- The fault of the token under the cursor. -/
def faultHere (s : Stream) (context : String) : SyntaxFault where
  cause := .expected context s.peek.text
  found := s.peek.text
  line := s.peek.start.line
  source := s.source
  span := s.peek.span

/-- Moves past a wanted token, or fails where it should stand. -/
def consume (s : Stream) (m : Matcher) (context : String) : Except SyntaxFault Token × Stream :=
  if s.check m then (.ok s.peek, s.skip) else (.error (s.faultHere context), s)

/-- The tokens from one index up to another, which may lie past the end marker. -/
def between (s : Stream) (first last : Nat) : List Token :=
  let front := (s.front.extract first last).toList
  if first ≤ s.front.size ∧ s.front.size < last then front ++ [s.last] else front

/-- The tokens from the cursor up to the next end marker, and the stream at that marker. -/
def drain (s : Stream) : List Token × Stream :=
  let rest := (s.tokens.drop s.cursor).takeWhile (·.kind != .endMarker)
  (rest, { s with cursor := s.cursor + rest.length })

end Stream

end SourceMacros
