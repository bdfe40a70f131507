-- The application: settings from their layers, one command, and what it prints.
import SourceMacros.CommandLine
import SourceMacros.Resolution

namespace SourceMacros

/-- The variables of an environment. -/
abbrev Environment := String → Option String

namespace Application

variable {μ : Type}

/-- The version, as it is printed. -/
def version : String := "makros 0.1.0\n"

/-- The settings in a file. -/
def loadSettings (tree : FileTree) (path : Path) : Except Error Settings :=
  match tree.readText path with
  | .error cause => .error (.io path cause)
  | .ok text =>
    match Settings.parse text with
    | .error _ => .error (.internal (.invalidSettings path))
    | .ok settings => .ok settings

/-- Defaults, then the settings file, then the environment, then the options. -/
def settings (tree : FileTree) (options : Options) (env : Environment) : Except Error Settings := do
  let base ←
    match options.config with
    | some path => loadSettings tree path
    | none => .ok {}
  let base := base.applyVariables env
  return { base with
    packagesRoot := options.packagesRoot.or base.packagesRoot
    builtinDir := options.builtinDir.or base.builtinDir
    hashRecord := options.hashRecord.or base.hashRecord }

/-- The terminal takes colours: it has a name, it is not a dumb one, and nothing forbids them. -/
def takesColours (env : Environment) : Bool :=
  match env "TERM" with
  | some name => name != "dumb" && (env "NO_COLOR").isNone
  | none => false

/-- The line for a written file. -/
def writtenLine (env : Environment) (path : Path) : String :=
  let word := "Translated"
  let shown := if takesColours env then "\x1b[0m\x1b[1m\x1b[32m" ++ word ++ "\x1b[0m" else word
  shown ++ " " ++ path.text ++ "\n"

/-- Runs a command in a session. Returns what is printed. -/
def perform (command : Command) (env : Environment) : Run μ String := do
  match command with
  | .expand path =>
    let written ←
      if (← get).tree.isFolder path then translateFolder path
      else do pure [← translateFile path]
    return String.join (written.map (writtenLine env))
  | .print file => expandFile file

/-- What a run leaves behind. -/
structure Outcome (μ : Type) where
  output : String
  error : Option Error
  tree : FileTree
  interrupted : Bool
  memory : μ

/-- The outcome of a run that ended in a session. -/
def outcome (s : Session μ) (output : String) (error : Option Error) : Outcome μ :=
  { output, error, tree := s.tree, interrupted := s.interrupted, memory := s.memory }

/-- Runs an invocation over a file tree. The record of digests is saved at the end, whether the
command failed or not; the command's own error wins over a failure to save. -/
def run (invocation : Invocation) (env : Environment) (registry : Registry μ) (tree : FileTree)
    (interrupted : Bool) (memory : μ) : Outcome μ :=
  match settings tree invocation.options env with
  | .error error => { output := "", error := some error, tree, interrupted, memory }
  | .ok settings =>
    match bootstrapBuiltins (Session.start settings registry tree interrupted memory) with
    | .error error s => outcome s "" (some error)
    | .ok _ s =>
      let (output, error, s) := match perform invocation.command env s with
        | .ok output s => (output, none, s)
        | .error error s => ("", some error, s)
      match Run.saveRecord s with
      | .ok () s => outcome s output error
      | .error late s => outcome s output (error.or (some late))

/-- The exit status of a run that the user stopped. -/
def interruptedStatus : Nat := 130

/-- The exit status of a run. -/
def status : Option Error → Nat
  | none => 0
  | some error => if error.isInterrupt then interruptedStatus else 1

end Application

end SourceMacros
