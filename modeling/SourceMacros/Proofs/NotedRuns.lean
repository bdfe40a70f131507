-- Operations that keep a log. Beside its state each of them has a log, to which only the run of the
-- helper files of a package adds. Apart from the log each is written as the operation of a session
-- that it stands for, down to the order of its steps.
import SourceMacros.Proofs.Calls
import SourceMacros.Proofs.RunLog

namespace SourceMacros

variable {μ σ τ α β : Type}

/-! ## Building blocks -/

/-- An operation with a log beside its state. -/
abbrev NotedRun (σ : Type) := EStateM Error (σ × List Note)

/-- An outcome with a log beside its state. -/
def beside (log : List Note) : EStateM.Result Error σ α → EStateM.Result Error (σ × List Note) α
  | .ok a s => .ok a (s, log)
  | .error e s => .error e (s, log)

namespace Noted

/-- An operation that adds nothing to the log. -/
def quiet (x : EStateM Error σ α) : NotedRun σ α := fun (s, log) => beside log (x s)

/-- Adds to the log. -/
def note (n : Note) : NotedRun σ Unit := modify fun (s, log) => (s, log ++ [n])

/-- Runs an operation on another state, which is made of this one and goes back into it. -/
def zoom (focus : σ → τ) (back : σ → τ → σ) (x : NotedRun τ α) : NotedRun σ α := fun (s, log) =>
  match x (focus s, log) with
  | .ok a (t, log) => .ok a (back s t, log)
  | .error e (t, log) => .error e (back s t, log)

/-! ## Passes -/

section

open PassRun (onStream update replaceFrom plain)

def onSession (run : NotedRun (Session μ) α) : NotedRun (PassState μ) α :=
  zoom PassState.session (fun a session => { a with session }) run

def importDirective (resolve : String → NotedRun (Session μ) (Definition μ)) (keyword : Token)
    (start : Nat) : NotedRun (PassState μ) Unit := do
  quiet (update (·.copyThrough (keyword.start.line - 1)))
  let directive ← quiet (onStream Directive.parse)
  let definition ← onSession (resolve directive.reference)
  quiet (update fun p => { p with available := p.available ++ [definition] })
  quiet (update (·.insert directive.comment))
  quiet (replaceFrom start)

def step (resolve : String → NotedRun (Session μ) (Definition μ)) :
    NotedRun (PassState μ) Unit := do
  let a ← quiet get
  if a.session.interrupted then throw .interrupted
  let token := a.stream.peek
  let start := a.stream.cursor
  quiet (set { a with stream := a.stream.skip })
  match token.kind with
  | .indent => quiet (update fun p => { p with indentation := p.indentation ++ token.text.toList })
  | .dedent =>
    quiet (update fun p =>
      { p with indentation := p.indentation.take (p.indentation.length - token.text.length) })
  | .name =>
    if token.text = a.session.settings.importKeyword then importDirective resolve token start
    else
      match a.pass.trigger? token.text with
      | some definition => quiet (PassRun.invocation definition token start)
      | none => quiet (plain token)
  | _ => quiet (plain token)

def steps (resolve : String → NotedRun (Session μ) (Definition μ)) :
    Nat → NotedRun (PassState μ) Unit
  | 0 => pure ()
  | n + 1 => do
    if (← quiet get).stream.atEnd then pure ()
    else
      step resolve
      steps resolve n

def expandStream (resolve : String → NotedRun (Session μ) (Definition μ)) :
    NotedRun (PassState μ) String := do
  quiet (update fun _ => {})
  let stream := (← quiet get).stream
  steps resolve (stream.front.size - stream.cursor)
  let table := (← quiet get).stream.lines
  quiet (update (·.copyThrough table.size))
  return (← quiet get).pass.render table

end

/-! ## Files -/

def expandText (resolve : String → NotedRun (Session μ) (Definition μ)) (name text : String) :
    NotedRun (Session μ × Pass μ) String :=
  match Stream.ofSource name text with
  | .error fault => throw (.grammar fault)
  | .ok stream =>
    zoom (fun (session, pass) => { session, stream, pass }) (fun _ a => (a.session, a.pass))
      (expandStream resolve)

def freshPass (run : NotedRun (Session μ × Pass μ) α) : NotedRun (Session μ) α :=
  zoom (fun session => (session, {})) (fun _ after => after.1) run

def withSearchRoot (root : Path) (run : NotedRun (Session μ) α) : NotedRun (Session μ) α :=
  zoom (fun s => { s with searchRoot := root })
    (fun s after => { after with searchRoot := s.searchRoot }) run

def expandFile (resolve : String → NotedRun (Session μ) (Definition μ)) (path : Path) :
    NotedRun (Session μ) String := do
  let text ← quiet (Run.readText path)
  withSearchRoot (searchFolder path) (freshPass (expandText resolve path.text text))

def translateFile (resolve : String → NotedRun (Session μ) (Definition μ)) (path : Path) :
    NotedRun (Session μ) Path := do
  let output ← expandFile resolve path
  let target ← quiet (Run.outputPath path)
  if target.same path then throw (.internal (.wouldOverwrite path))
  quiet (Run.writeThrough target output)
  return target

def translateFolder (resolve : String → NotedRun (Session μ) (Definition μ)) (dir : Path) :
    NotedRun (Session μ) (List Path) := do
  let sources ← quiet (Run.ofExcept (sourcesBelow (← quiet get) dir))
  sources.mapM (translateFile resolve)

def bootstrapFile (resolve : String → NotedRun (Session μ) (Definition μ)) (path : Path) :
    NotedRun (Session μ) Bool := do
  if !(← quiet get).settings.isSource path then return false
  let digest ← quiet (Run.digest path)
  let output ← quiet (Run.outputPath path)
  let s ← quiet get
  if s.tree.isFile output && s.record.isUnchanged s.tree path digest then return false
  let _ ← translateFile resolve path
  quiet (modify fun s => { s with record := s.record.update s.tree path digest })
  return true

/-! ## Packages -/

/-- Runs the helper files that a manifest lists. -/
def runHelpers (resolve : String → NotedRun (Session μ) (Definition μ)) (dir : Path)
    (manifest : Manifest) : NotedRun (Session μ) Unit :=
  manifest.bootstrap.forM fun file => do
    let _ ← bootstrapFile resolve (dir.join ⟨file⟩)

/-- The run of the helper files of a package is noted when it starts and when it ends. The record is
saved after that. -/
def bootstrapPackage (resolve : String → NotedRun (Session μ) (Definition μ)) (dir : Path)
    (manifest : Manifest) : NotedRun (Session μ) Unit := do
  let folder := (← quiet get).tree.canonical dir
  if (← quiet get).bootstrapped.any (·.same folder) then return
  note (.began folder)
  quiet (modify (·.mark folder))
  try
    runHelpers resolve dir manifest
  catch error =>
    quiet (modify (·.unmark folder))
    note (.withdrew folder)
    throw error
  note (.completed folder)
  quiet Run.saveRecord

def implementationFile (resolve : String → NotedRun (Session μ) (Definition μ)) (file : Path)
    (reference : String) : NotedRun (Session μ) Path := do
  let missing : Error := .resolution reference (.missingImplementation file)
  if (← quiet get).settings.isSource file then
    let output ← quiet (Run.outputPath file)
    if !(← quiet get).tree.isFile output then
      if !(← quiet get).tree.isFile file then throw missing
      let _ ← bootstrapFile resolve file
      quiet Run.saveRecord
    return output
  else
    if !(← quiet get).tree.isFile file then throw missing
    return file

def loadPackage (resolve : String → NotedRun (Session μ) (Definition μ)) (dir : Path)
    (reference package keyword : String) : NotedRun (Session μ) (Definition μ) := do
  let manifest ← quiet (Run.loadManifest (dir.join ⟨(← quiet get).settings.manifestFile⟩))
  bootstrapPackage resolve dir manifest
  match manifest.entry? keyword with
  | none => throw (.resolution reference (.noSuchEntry package dir keyword))
  | some entry =>
    let file ← implementationFile resolve (dir.join ⟨entry.file⟩) reference
    let key := PluginKey.package package keyword
    match (← quiet get).registry.lookup key with
    | none => throw (.resolution reference .unregistered)
    | some plugin =>
      return { reference, keyword, origin := .package dir manifest.name file, key, plugin }

/-! ## References -/

def resolveNew (resolve : String → NotedRun (Session μ) (Definition μ)) (reference : String) :
    NotedRun (Session μ) (Definition μ) := do
  match Pieces.splitText Directive.separator reference with
  | [keyword] =>
    if keyword == "" then throw (.resolution reference .malformedReference)
    quiet (Run.ofExcept (resolveBuiltin (← quiet get) keyword))
  | [package, keyword] =>
    if package == "" || keyword == "" then throw (.resolution reference .malformedReference)
    match packageFolder? (← quiet get) package with
    | none => throw (.resolution reference (.noPackageDirectory package))
    | some dir => loadPackage resolve dir reference package keyword
  | _ => throw (.resolution reference .malformedReference)

def resolveVia (resolve : String → NotedRun (Session μ) (Definition μ)) (reference : String) :
    NotedRun (Session μ) (Definition μ) := do
  match (← quiet get).cached? reference with
  | some definition => return definition
  | none =>
    let definition ← resolveNew resolve reference
    quiet (modify (·.remember reference definition))
    return definition

def resolveWithin : Nat → String → NotedRun (Session μ) (Definition μ)
  | 0, _ => throw .tooDeep
  | depth + 1, reference => resolveVia (resolveWithin depth) reference

def resolve (reference : String) : NotedRun (Session μ) (Definition μ) := do
  resolveWithin (← quiet get).depth reference

/-! ## Calls -/

def bootstrapBuiltins : NotedRun (Session μ) Nat := do
  match (← quiet get).settings.builtinDir with
  | none => return 0
  | some dir =>
    let sources ← quiet (Run.ofExcept (builtinSources (← quiet get) dir))
    let expanded ← sources.mapM (bootstrapFile resolve)
    quiet Run.saveRecord
    return expanded.count true

/-- A call that keeps a log. -/
def call : Call μ → NotedRun (Session μ) Unit
  | .resolve reference => do let _ ← resolve reference
  | .bootstrapFile path => do let _ ← bootstrapFile resolve path
  | .bootstrapBuiltins => do let _ ← bootstrapBuiltins
  | .expandText name text account =>
    zoom (fun s => (s, account)) (fun _ after => after.1) do
      let _ ← expandText resolve name text
  | .expandTokens stream account =>
    zoom (fun session => { session, stream, pass := account }) (fun _ a => a.session) do
      let _ ← expandStream resolve
  | .expandFile path => do let _ ← expandFile resolve path
  | .translateFile path => do let _ ← translateFile resolve path
  | .translateFolder dir => do let _ ← translateFolder resolve dir

end Noted

end SourceMacros
