-- Package manifests: what a package calls itself, which macros it offers, and which of its files
-- must be expanded before any of them is used.
import SourceMacros.Error
import SourceMacros.Json.Document
import SourceMacros.Text.Letter

namespace SourceMacros

/-- One macro that a package offers. -/
structure Entry where
  name : String
  keyword : String
  description : String
  file : String
  deriving DecidableEq, Repr

structure Manifest where
  path : Path
  name : String
  package : String
  description : String
  entries : List Entry
  bootstrap : List String
  deriving DecidableEq, Repr

/-! ## As written -/

/-- An entry as written, where any field may be absent. -/
structure DraftEntry where
  name : Option String := none
  keyword : Option String := none
  description : Option String := none
  file : Option String := none
  deriving DecidableEq, Repr

/-- A manifest as written. -/
structure DraftManifest where
  name : Option String := none
  package : Option String := none
  description : Option String := none
  entries : Option (List DraftEntry) := none
  bootstrap : List String := []
  deriving DecidableEq, Repr

namespace DraftEntry

/-- The fields of an entry, in the order of their array form. -/
def fields : List (Json.Field DraftEntry) := [
  .of "name" (Json.nullable Json.text) (fun e v => { e with name := v }) false,
  .of "keyword" (Json.nullable Json.text) (fun e v => { e with keyword := v }) false,
  .of "description" (Json.nullable Json.text) (fun e v => { e with description := v }) false,
  .of "file" (Json.nullable Json.text) (fun e v => { e with file := v }) false]

def read : Json.Reader DraftEntry := Json.record fields {}

/-- The entry, or the first field that is absent. -/
def check (e : DraftEntry) : Except EntryField Entry :=
  match e.name with
  | none => .error .name
  | some name =>
    match e.keyword with
    | none => .error .keyword
    | some keyword =>
      match e.description with
      | none => .error .description
      | some description =>
        match e.file with
        | none => .error .file
        | some file => .ok { name, keyword, description, file }

end DraftEntry

namespace DraftManifest

/-- The fields of a manifest, in the order of their array form. Only the last may be left off. -/
def fields : List (Json.Field DraftManifest) := [
  .of "name" (Json.nullable Json.text) (fun m v => { m with name := v }) false,
  .of "package" (Json.nullable Json.text) (fun m v => { m with package := v }) false,
  .of "description" (Json.nullable Json.text) (fun m v => { m with description := v }) false,
  .of "macros" (Json.nullable (Json.array DraftEntry.read)) (fun m v => { m with entries := v })
    false,
  .of "bootstrap" (Json.array Json.text) (fun m v => { m with bootstrap := v }) true]

def read : Json.Reader DraftManifest := Json.record fields {}

/-- The entries in order, or the first fault with the index of its entry. -/
def checkEntries (index : Nat) : List DraftEntry → Except ManifestCause (List Entry)
  | [] => .ok []
  | draft :: drafts =>
    match draft.check with
    | .error field => .error (.entryMissing index field)
    | .ok entry => (checkEntries (index + 1) drafts).map (entry :: ·)

/-- The manifest, or the first fault: fields are checked in a fixed order, wherever they stand
in the text. -/
def check (m : DraftManifest) (path : Path) : Except ManifestCause Manifest :=
  match m.name with
  | none => .error .missingName
  | some name =>
    match m.package with
    | none => .error .missingPackageName
    | some package =>
      if !Letter.isIdentifier package then .error (.invalidPackageName package)
      else
        match m.description with
        | none => .error .missingDescription
        | some description =>
          match m.entries with
          | none => .error .missingMacros
          | some drafts =>
            (checkEntries 0 drafts).map fun entries =>
              { path, name, package, description, entries, bootstrap := m.bootstrap }

end DraftManifest

namespace Manifest

/-- Reads and checks the text of a manifest. -/
def parse (path : Path) (text : String) : Except ManifestError Manifest :=
  match Json.document DraftManifest.read text with
  | .error fault => .error ⟨path, .malformed fault⟩
  | .ok draft =>
    match draft.check path with
    | .error cause => .error ⟨path, cause⟩
    | .ok manifest => .ok manifest

/-- The first entry with a keyword. -/
def entry? (m : Manifest) (keyword : String) : Option Entry :=
  m.entries.find? (·.keyword == keyword)

/-- The directory that holds the manifest. -/
def dir (m : Manifest) : Path := m.path.parent?.getD ⟨""⟩

end Manifest

end SourceMacros
