-- Blank characters: the Unicode property `White_Space`.
import SourceMacros.Text.CharSet

namespace SourceMacros

namespace Blank

/-- The white-space characters of Unicode. -/
def blanks : CharSet where
  edges := #[
    0x9, 0xe, 0x20, 0x21, 0x85, 0x86, 0xa0, 0xa1, 0x1680, 0x1681, 0x2000, 0x200b, 0x2028, 0x202a,
    0x202f, 0x2030, 0x205f, 0x2060, 0x3000, 0x3001]

/-- A white-space character. -/
def isBlank (c : Char) : Bool := blanks.contains c

/-- A text of white space only. -/
def isBlankText (text : String) : Bool := text.toList.all isBlank

end Blank

end SourceMacros
