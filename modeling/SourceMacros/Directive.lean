-- The import directive: after the reserved keyword comes the word `import`, a name, and perhaps
-- a point and a second name.
import SourceMacros.Plugin

namespace SourceMacros

structure Directive where
  /-- The first name: a built-in keyword or a package. -/
  head : Token
  /-- The second name, a keyword of the package. -/
  member : Option Token

namespace Directive

variable {μ : Type}

/-- What divides the names of a reference. -/
def separator : Char := '.'

/-- Parses a directive from just past the reserved keyword. -/
def parse : Parser μ Directive := do
  let _ ← Parser.consume (.name "import") "Expected the keyword 'import'"
  let head ← Parser.consume (.ofKind .name) "Expected the name of your module"
  if ← Parser.tryMatch [.operator separator.toString] then
    let member ← Parser.consume (.ofKind .name) "Expected the name of the macro file"
    return ⟨head, some member⟩
  else
    return ⟨head, none⟩

/-- The names with a point between them. -/
def reference (d : Directive) : String :=
  match d.member with
  | some member => d.head.text ++ separator.toString ++ member.text
  | none => d.head.text

/-- The line that takes the place of the directive in the output. -/
def comment (d : Directive) : String := "# Macro imported: " ++ d.reference ++ "\n"

end Directive

end SourceMacros
