-- Definitions: macros that a reference was resolved to, ready to be triggered.
import SourceMacros.Registry

namespace SourceMacros

/-- Where a definition comes from. -/
inductive Origin where
  /-- A built-in macro, with its file when built-in files are kept somewhere. -/
  | builtin (file : Option Path)
  /-- A macro that the manifest of a package declares. -/
  | package (dir : Path) (manifestName : String) (file : Path)
  deriving DecidableEq, Repr

namespace Origin

/-- The origin with its fields, as shown to a reader. -/
def debug : Origin → String
  | builtin none => "Builtin \x7b file: None \x7d"
  | builtin (some file) => "Builtin \x7b file: Some(" ++ Quoted.quote file.text ++ ") \x7d"
  | package dir manifestName file =>
    "Package \x7b dir: " ++ Quoted.quote dir.text ++ ", manifest_name: " ++
      Quoted.quote manifestName ++ ", file: " ++ Quoted.quote file.text ++ " \x7d"

end Origin

structure Definition (μ : Type) where
  reference : String
  /-- The word that triggers the macro. -/
  keyword : String
  origin : Origin
  /-- The place of the plugin in the registry. -/
  key : PluginKey
  plugin : Plugin μ

namespace Definition

variable {μ : Type}

/-- Both definitions share one implementation. -/
def samePlugin (a b : Definition μ) : Bool := a.key == b.key

/-- The definition without its implementation, as shown to a reader. -/
def debug (d : Definition μ) : String :=
  "MacroDefinition \x7b reference: " ++ Quoted.quote d.reference ++ ", keyword: " ++
    Quoted.quote d.keyword ++ ", origin: " ++ d.origin.debug ++ ", .. \x7d"

end Definition

end SourceMacros
