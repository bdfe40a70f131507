-- Places in a source text. Offsets, columns and lengths count bytes of UTF-8.

namespace SourceMacros

/-- A range of bytes of the whole source. -/
structure Span where
  start : Nat
  stop : Nat
  deriving DecidableEq, Repr

namespace Span

/-- The number of bytes in the range. A range that ends before it starts has none. -/
def length (s : Span) : Nat := s.stop - s.start

/-- The empty range at one offset. -/
def point (offset : Nat) : Span := ⟨offset, offset⟩

end Span

/-- A line, counted from 1, and a byte offset from the start of that line. -/
structure Position where
  line : Nat
  column : Nat
  deriving DecidableEq, Repr

end SourceMacros
