-- Sessions: everything that outlives one pass over one source. Each operation takes a session to
-- the next one, also when it fails.
import SourceMacros.Definition
import SourceMacros.Digest
import SourceMacros.HashRecord
import SourceMacros.Manifest
import SourceMacros.Settings

namespace SourceMacros

structure Session (μ : Type) where
  settings : Settings
  registry : Registry μ
  /-- What references were resolved to. -/
  cache : List (String × Definition μ) := []
  /-- The canonical folders of packages whose helper files were expanded. -/
  bootstrapped : List Path := []
  /-- The digests of expanded sources. -/
  record : HashRecord := {}
  /-- The folder in which packages are looked for first. -/
  searchRoot : Path
  tree : FileTree
  /-- The user asked to stop. -/
  interrupted : Bool := false
  /-- What plugins remember. -/
  memory : μ

/-- An operation on a session. A failure keeps the session it left behind. -/
abbrev Run (μ : Type) := EStateM Error (Session μ)

namespace Session

variable {μ : Type}

/-- A new session over a file tree. The record is read from its file, if it has one, and packages
are looked for in the working folder. -/
def start (settings : Settings) (registry : Registry μ) (tree : FileTree) (interrupted : Bool)
    (memory : μ) : Session μ where
  settings
  registry
  record := match settings.hashRecord with
    | some path => HashRecord.load tree path
    | none => {}
  searchRoot := FileTree.keyPath tree.working
  tree
  interrupted
  memory

/-- The definition that a reference was resolved to before. -/
def cached? (s : Session μ) (reference : String) : Option (Definition μ) :=
  (s.cache.find? (·.1 == reference)).map Prod.snd

/-- The helper files of the package in a folder were expanded. -/
def isBootstrapped (s : Session μ) (dir : Path) : Bool :=
  s.bootstrapped.any (·.same (s.tree.canonical dir))

/-- The session with a resolved reference. -/
def remember (s : Session μ) (reference : String) (definition : Definition μ) : Session μ :=
  { s with cache := (reference, definition) :: s.cache.filter (·.1 != reference) }

/-- The session with a package marked, under its canonical folder. -/
def mark (s : Session μ) (folder : Path) : Session μ :=
  { s with bootstrapped := folder :: s.bootstrapped }

/-- The session without the mark of a package. -/
def unmark (s : Session μ) (folder : Path) : Session μ :=
  { s with bootstrapped := s.bootstrapped.filter (!·.same folder) }

end Session

namespace Run

variable {μ : Type}

/-- The outcome of a file operation on a path. -/
def ofIo {α : Type} (path : Path) : Except IoCause α → Run μ α
  | .ok value => return value
  | .error cause => throw (.io path cause)

/-- An outcome that depends on nothing else. -/
def ofExcept {α : Type} : Except Error α → Run μ α
  | .ok value => return value
  | .error error => throw error

/-- The text of a file. -/
def readText (path : Path) : Run μ String := do ofIo path ((← get).tree.readText path)

/-- The digest of a file. -/
def digest (path : Path) : Run μ String := do
  return Digest.ofContent (← ofIo path ((← get).tree.read path))

/-- Writes a file through a temporary one beside it, so that the file is never half written. -/
def writeThrough (target : Path) (text : String) : Run μ Unit := do
  let temporary := target.withFileName ("." ++ target.fileName?.getD "" ++ ".tmp")
  let tree ← ofIo temporary ((← get).tree.write temporary text.toUTF8)
  modify fun s => { s with tree }
  match tree.rename temporary target with
  | .ok tree => modify fun s => { s with tree }
  | .error cause =>
    match tree.removeFile temporary with
    | .ok tree => modify fun s => { s with tree }
    | .error _ => pure ()
    throw (.io target cause)

/-- Saves the record of digests. -/
def saveRecord : Run μ Unit := fun s =>
  match s.record.save s.tree with
  | .ok record tree => .ok () { s with record, tree }
  | .error error tree => .error error { s with tree }

/-- The path of an expanded file, beside its source. -/
def outputPath (source : Path) : Run μ Path := do ofExcept ((← get).settings.outputPath source)

/-- The checked manifest in a file. -/
def loadManifest (path : Path) : Run μ Manifest := do
  match (← get).tree.readText path with
  | .error cause => throw (.manifest ⟨path, .unreadable cause⟩)
  | .ok text =>
    match Manifest.parse path text with
    | .error error => throw (.manifest error)
    | .ok manifest => return manifest

end Run

end SourceMacros
