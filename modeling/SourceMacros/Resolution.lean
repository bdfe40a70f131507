-- Resolution: from references to definitions. Loading a package may expand files of that package,
-- whose directives are references again, so resolution nests. How deep it may nest is bounded.
import SourceMacros.Expansion

namespace SourceMacros

section

variable {μ : Type}

/-! ## Sources of a package -/

/-- Expands a source unless its output is there and its content is recorded as unchanged. Returns
whether it was expanded. Other files are left alone. -/
def bootstrapFileVia (resolve : String → Run μ (Definition μ)) (path : Path) : Run μ Bool := do
  if !(← get).settings.isSource path then return false
  let digest ← Run.digest path
  let output ← Run.outputPath path
  let s ← get
  if s.tree.isFile output && s.record.isUnchanged s.tree path digest then return false
  let _ ← translateFileVia resolve path
  modify fun s => { s with record := s.record.update s.tree path digest }
  return true

/-- Runs the helper files of a package that was not bootstrapped before. The package is marked
first, so that a helper may import from its own package; a failure takes the mark away. -/
def bootstrapPackage (resolve : String → Run μ (Definition μ)) (dir : Path)
    (manifest : Manifest) : Run μ Unit := do
  let folder := (← get).tree.canonical dir
  if (← get).bootstrapped.any (·.same folder) then return
  modify (·.mark folder)
  try
    manifest.bootstrap.forM fun file => do
      let _ ← bootstrapFileVia resolve (dir.join ⟨file⟩)
  catch error =>
    modify (·.unmark folder)
    throw error
  Run.saveRecord

/-- The file behind an entry of a manifest. A source stands for its output, which is made if it is
missing. -/
def implementationFile (resolve : String → Run μ (Definition μ)) (file : Path)
    (reference : String) : Run μ Path := do
  let missing : Error := .resolution reference (.missingImplementation file)
  if (← get).settings.isSource file then
    let output ← Run.outputPath file
    if !(← get).tree.isFile output then
      if !(← get).tree.isFile file then throw missing
      let _ ← bootstrapFileVia resolve file
      Run.saveRecord
    return output
  else
    if !(← get).tree.isFile file then throw missing
    return file

/-! ## Built-in macros -/

/-- The file of a built-in macro: its output, or else its source. -/
def builtinFile? (s : Session μ) (dir : Path) (keyword : String) : Option Path :=
  [s.settings.outputExtension, s.settings.sourceExtension].findSome? fun extension =>
    let file := dir.join ⟨keyword ++ "." ++ extension⟩
    if s.tree.isFile file then some file else none

/-- A built-in macro. Where built-in files are kept somewhere, it must have one there. -/
def resolveBuiltin (s : Session μ) (keyword : String) : Except Error (Definition μ) := do
  let file ←
    match s.settings.builtinDir with
    | none => .ok none
    | some dir =>
      match builtinFile? s dir keyword with
      | some file => .ok (some file)
      | none => .error (.resolution keyword (.noBuiltinFile dir))
  let key := PluginKey.builtin keyword
  match s.registry.lookup key with
  | some plugin => return { reference := keyword, keyword, origin := .builtin file, key, plugin }
  | none => .error (.resolution keyword .unknownBuiltin)

/-! ## Packages -/

/-- The first folder of a package below the search root, in the order of a walk. Places the walk
cannot go into do not matter. -/
def localPackage? (s : Session μ) (package : String) : Option Path :=
  (s.tree.walk s.searchRoot).findSome? fun
    | .entry path names .folder => if names.getLast? == some package then some path else none
    | _ => none

/-- The folder of an installed package. -/
def installedPackage? (s : Session μ) (package : String) : Option Path :=
  s.settings.packagesRoot.bind fun root =>
    let dir := root.join ⟨package⟩
    if s.tree.isFolder dir then some dir else none

/-- The folder of a package: a local one wins over an installed one. -/
def packageFolder? (s : Session μ) (package : String) : Option Path :=
  (localPackage? s package).or (installedPackage? s package)

/-- A macro of the package in a folder. -/
def loadPackage (resolve : String → Run μ (Definition μ)) (dir : Path)
    (reference package keyword : String) : Run μ (Definition μ) := do
  let manifest ← Run.loadManifest (dir.join ⟨(← get).settings.manifestFile⟩)
  bootstrapPackage resolve dir manifest
  match manifest.entry? keyword with
  | none => throw (.resolution reference (.noSuchEntry package dir keyword))
  | some entry =>
    let file ← implementationFile resolve (dir.join ⟨entry.file⟩) reference
    let key := PluginKey.package package keyword
    match (← get).registry.lookup key with
    | none => throw (.resolution reference .unregistered)
    | some plugin =>
      return { reference, keyword, origin := .package dir manifest.name file, key, plugin }

/-! ## References -/

/-- Resolves a reference that was not resolved before. -/
def resolveNew (resolve : String → Run μ (Definition μ)) (reference : String) :
    Run μ (Definition μ) := do
  match Pieces.splitText Directive.separator reference with
  | [keyword] =>
    if keyword == "" then throw (.resolution reference .malformedReference)
    Run.ofExcept (resolveBuiltin (← get) keyword)
  | [package, keyword] =>
    if package == "" || keyword == "" then throw (.resolution reference .malformedReference)
    match packageFolder? (← get) package with
    | none => throw (.resolution reference (.noPackageDirectory package))
    | some dir => loadPackage resolve dir reference package keyword
  | _ => throw (.resolution reference .malformedReference)

/-- Resolves a reference, and remembers what it was resolved to. -/
def resolveVia (resolve : String → Run μ (Definition μ)) (reference : String) :
    Run μ (Definition μ) := do
  match (← get).cached? reference with
  | some definition => return definition
  | none =>
    let definition ← resolveNew resolve reference
    modify (·.remember reference definition)
    return definition

/-- Resolves a reference with so many levels of nesting left. -/
def resolveWithin : Nat → String → Run μ (Definition μ)
  | 0, _ => throw .tooDeep
  | depth + 1, reference => resolveVia (resolveWithin depth) reference

/-- How deep references may nest in a session. A level that goes on from the folder of the level
before it names a folder by a longer path, and a path that is too long leads nowhere. So a chain
this deep has come round to a place where it was before. -/
def Session.depth (s : Session μ) : Nat := FileTree.pathLimit + 4 * s.tree.nodes.length + 64

/-! ## Whole operations -/

/-- Resolves a reference. -/
def resolve (reference : String) : Run μ (Definition μ) := do
  resolveWithin (← get).depth reference

/-- Expands a text, with an account of the pass. -/
def expandText (name text : String) : ExpandRun μ String := expandTextVia resolve name text

/-- Expands a file. -/
def expandFile (path : Path) : Run μ String := expandFileVia resolve path

/-- Expands a file and writes the output beside it. -/
def translateFile (path : Path) : Run μ Path := translateFileVia resolve path

/-- Translates every source below a folder. -/
def translateFolder (dir : Path) : Run μ (List Path) := translateFolderVia resolve dir

/-- Expands a source unless it is unchanged. -/
def bootstrapFile (path : Path) : Run μ Bool := bootstrapFileVia resolve path

/-- The sources among the built-in files, in order. -/
def builtinSources (s : Session μ) (dir : Path) : Except Error (List Path) :=
  match s.tree.list dir with
  | .error cause => .error (.io dir cause)
  | .ok names =>
    .ok ((names.map fun name => dir.join ⟨name⟩).filter fun path =>
      s.tree.isFile path && s.settings.isSource path)

/-- Expands every source among the built-in files. Returns how many were expanded. -/
def bootstrapBuiltins : Run μ Nat := do
  match (← get).settings.builtinDir with
  | none => return 0
  | some dir =>
    let sources ← Run.ofExcept (builtinSources (← get) dir)
    let expanded ← sources.mapM bootstrapFile
    Run.saveRecord
    return expanded.count true

end

end SourceMacros
