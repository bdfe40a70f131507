-- Sets of characters written as the row of code points at which membership changes.
import SourceMacros.Ascending

namespace SourceMacros

/-- A set of characters. Its edges ascend, and each one switches membership on or off:
the characters from the first edge up to the second belong, those up to the third do not,
and so on. -/
structure CharSet where
  edges : Array Nat

namespace CharSet

/-- A character belongs when it has passed an odd number of edges. -/
def contains (s : CharSet) (c : Char) : Bool := Ascending.count s.edges c.toNat % 2 == 1

end CharSet

end SourceMacros
