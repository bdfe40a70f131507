-- Pieces of generated code, for plugins that write more than a line.
import SourceMacros.LineTable
import SourceMacros.Text.Blank

namespace SourceMacros

namespace Code

/-- One level of indentation in generated code. -/
def indentUnit : String := "    "

/-- A physical line without the line feed, or carriage return and line feed, that ends it. -/
def chomp (line : List Char) : List Char :=
  match line.reverse with
  | '\n' :: '\r' :: rest => rest.reverse
  | '\n' :: rest => rest.reverse
  | _ => line

/-- The lines of a text without their line breaks. -/
def lines (text : String) : List String :=
  (physicalLines text.toList).map fun line => String.ofList (chomp line)

/-- The lines of a text, each behind the unit. Blank lines become empty. -/
def indent (text unit : String) : String :=
  "\n".intercalate ((lines text).map fun line => if Blank.isBlankText line then "" else unit ++ line)

/-- Statements, one after the other. -/
def program (parts : List String) : String := "\n".intercalate parts

/-- A function definition. -/
def function (name args body : String) : String :=
  "def " ++ name ++ "(" ++ args ++ "):\n" ++ indent body indentUnit ++ "\n"

/-- A class definition, with a base class or without. -/
def classBlock (name body : String) (base : Option String) : String :=
  let bases := match base with
    | some base => "(" ++ base ++ ")"
    | none => ""
  "\nclass " ++ name ++ bases ++ ":\n" ++ indent body indentUnit ++ "\n"

end Code

end SourceMacros
