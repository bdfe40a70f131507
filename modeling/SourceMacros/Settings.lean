-- Settings of a run. They are layered: defaults, then a file, then variables of the environment,
-- then options of the command line.
import SourceMacros.Error
import SourceMacros.Json.Document

namespace SourceMacros

structure Settings where
  /-- The reserved keyword in front of an import directive. -/
  importKeyword : String := "macro"
  /-- The extension of sources to expand, without its point. -/
  sourceExtension : String := "mpy"
  /-- The extension of expanded files, without its point. -/
  outputExtension : String := "py"
  /-- The name of a package's manifest. -/
  manifestFile : String := "macros.json"
  /-- Where the files of built-in macros lie, if anywhere. -/
  builtinDir : Option Path := none
  /-- Where installed packages lie, if anywhere. -/
  packagesRoot : Option Path := none
  /-- Where content digests are kept between runs, if anywhere. -/
  hashRecord : Option Path := none
  deriving DecidableEq, Repr

namespace Settings

/-! ## Reading -/

/-- Reads a path. -/
def readPath : Json.Reader Path := fun cs => (Json.text cs).map fun (text, rest) => (⟨text⟩, rest)

/-- The fields of a settings file, in the order of their array form. Any of them may be absent. -/
def fields : List (Json.Field Settings) := [
  .of "import_keyword" Json.text (fun s v => { s with importKeyword := v }) true,
  .of "source_extension" Json.text (fun s v => { s with sourceExtension := v }) true,
  .of "output_extension" Json.text (fun s v => { s with outputExtension := v }) true,
  .of "manifest_file" Json.text (fun s v => { s with manifestFile := v }) true,
  .of "builtin_dir" (Json.nullable readPath) (fun s v => { s with builtinDir := v }) true,
  .of "packages_root" (Json.nullable readPath) (fun s v => { s with packagesRoot := v }) true,
  .of "hash_record" (Json.nullable readPath) (fun s v => { s with hashRecord := v }) true]

/-- Reads the text of a settings file. Absent fields keep their defaults. -/
def parse (text : String) : Except Json.Fault Settings := Json.document (Json.record fields {}) text

/-! ## Layers -/

def packagesRootVariable : String := "MAKROS_PACKAGES_ROOT"

def builtinDirVariable : String := "MAKROS_BUILTIN_DIR"

def hashRecordVariable : String := "MAKROS_HASH_RECORD"

/-- A variable that is set to something. -/
def given? (vars : String → Option String) (name : String) : Option Path :=
  ((vars name).filter (· != "")).map Path.mk

/-- The settings with the variables of an environment laid over them. Empty ones are ignored. -/
def applyVariables (s : Settings) (vars : String → Option String) : Settings :=
  { s with
    packagesRoot := (given? vars packagesRootVariable).or s.packagesRoot
    builtinDir := (given? vars builtinDirVariable).or s.builtinDir
    hashRecord := (given? vars hashRecordVariable).or s.hashRecord }

/-- Both paths are unset, or they are the same. -/
def samePath : Option Path → Option Path → Bool
  | none, none => true
  | some p, some q => p.same q
  | _, _ => false

/-- Both settings say the same, however their paths are spelled. -/
def same (s t : Settings) : Bool :=
  s.importKeyword == t.importKeyword && s.sourceExtension == t.sourceExtension &&
    s.outputExtension == t.outputExtension && s.manifestFile == t.manifestFile &&
    samePath s.builtinDir t.builtinDir && samePath s.packagesRoot t.packagesRoot &&
    samePath s.hashRecord t.hashRecord

/-! ## Sources and outputs -/

/-- The path has the extension of sources to expand. -/
def isSource (s : Settings) (path : Path) : Bool := path.extension? == some s.sourceExtension

/-- The path of an expanded file, beside its source. -/
def outputPath (s : Settings) (path : Path) : Except Error Path :=
  if s.outputExtension.toList.contains '/' then .error .slashInExtension
  else .ok (path.withExtension s.outputExtension)

end Settings

end SourceMacros
