-- The program: it takes a picture of the real files, runs the command on the picture, and writes
-- back what the run changed.
import SourceMacros.Application

namespace SourceMacros

namespace Program

/-! ## The real files -/

/-- The names on the way to an absolute path. -/
def keyOf (path : String) : Key := (Pieces.splitText '/' path).filter (· != "")

/-- Everything below a real folder. What cannot be read is left out. -/
partial def nodesBelow (folder : String) : IO (List (Key × Node)) := do
  let mut nodes := []
  for entry in ← (← IO.FS.realPath folder).readDir do
    let path := folder ++ "/" ++ entry.fileName
    let found : List (Key × Node) ← try
        match (← entry.path.symlinkMetadata).type with
        | .dir => pure ((keyOf path, .folder) :: (← nodesBelow path))
        | .file => pure [(keyOf path, .file (← IO.FS.readBinFile path))]
        | .symlink => pure [(keyOf path, .link ⟨(← IO.FS.realPath path).toString⟩)]
        | .other => pure []
      catch _ => pure []
    nodes := nodes ++ found
  return nodes

/-- A picture of the working folder and of the other folders given, as seen from the working
folder. -/
def picture (others : List String) : IO FileTree := do
  let working := (← IO.FS.realPath ".").toString
  let mut tree : FileTree := { nodes := [], working := keyOf working }
  for folder in working :: others do
    let found ← try nodesBelow folder catch _ => pure []
    let key := keyOf folder
    let above := (List.range (key.length + 1)).map fun n => (key.take n, Node.folder)
    for (key, node) in above ++ found do
      if key != [] then tree := tree.set key node
  return tree

/-- The folders outside the working folder that paths lead into. -/
def foldersOf (paths : List Path) : List String :=
  (paths.filter Path.isAbsolute).filterMap fun path => path.parent?.map Path.text

/-- The paths that settings name. -/
def pathsOf (settings : Settings) : List Path :=
  [settings.builtinDir, settings.packagesRoot, settings.hashRecord].filterMap id

/-- Writes back what differs between two pictures, folders before what they hold. -/
def writeBack (before after : FileTree) : IO Unit := do
  for (key, node) in after.below [] do
    if before.get? key != some node then
      let path := FileTree.keyPath key
      match node with
      | .folder => IO.FS.createDirAll path.text
      | .file content =>
        let temporary := path.withFileName ("." ++ path.fileName?.getD "" ++ ".tmp")
        IO.FS.writeBinFile temporary.text content
        IO.FS.rename temporary.text path.text
      | .link _ => pure ()
  for (key, _) in before.below [] do
    if (after.get? key).isNone then IO.FS.removeFile (FileTree.keyPath key).text

/-- The variables that a run looks at. -/
def environment : IO Environment := do
  let names := [Settings.packagesRootVariable, Settings.builtinDirVariable,
    Settings.hashRecordVariable, "TERM", "NO_COLOR"]
  let values ← names.mapM fun name => return (name, ← IO.getEnv name)
  return fun name => (values.lookup name).join

/-! ## Messages -/

/-- How the program is used. -/
def usage : String := "\n".intercalate [
  "Expands syntactic macros in Python-style source files.",
  "",
  "Usage: makros [OPTIONS] <COMMAND>",
  "",
  "Commands:",
  "  expand  Translate a macro-source file, or every one under a directory, to its expanded sibling",
  "  print   Print the expanded text of a macro-source file",
  "  help    Print this message or the help of the given subcommand(s)",
  "",
  "Options:",
  "      --config <FILE>        JSON configuration file",
  "      --packages-root <DIR>  Directory of installed macro packages",
  "      --builtin-dir <DIR>    Directory of built-in macro implementation files",
  "      --hash-record <FILE>   File where content hashes are persisted between runs",
  "  -h, --help                 Print help",
  "  -V, --version              Print version",
  ""]

/-- What is printed when a command line starts no run. -/
def usageMessage : UsageError → String
  | .help => usage
  | .version => Application.version
  | .helpOnNothing => usage
  | .missingArgument => "error: a required argument was not provided\n\n" ++ usage
  | .missingCommand => "error: a command was not provided\n\n" ++ usage
  | .unknownArgument => "error: an argument is not known\n\n" ++ usage
  | .unknownCommand => "error: a command is not known\n\n" ++ usage
  | .invalidValue => "error: a value is required and was not supplied\n\n" ++ usage
  | .repeatedOption => "error: an option cannot be used more than once\n\n" ++ usage
  | .unwantedValue => "error: a flag takes no value\n\n" ++ usage

/-- Runs a parsed command line. -/
def run (invocation : Invocation) : IO UInt32 := do
  let env ← environment
  let argument := match invocation.command with
    | .expand path => path
    | .print file => file
  let named := argument :: invocation.options.config.toList
  let first ← picture (foldersOf named)
  let settings := (Application.settings first invocation.options env).toOption.getD {}
  let before ← picture (foldersOf (named ++ pathsOf settings))
  let outcome := Application.run invocation env .standard before false ()
  writeBack before outcome.tree
  IO.print outcome.output
  match outcome.error with
  | none => pure ()
  | some error =>
    if !error.isInterrupt then IO.eprintln (error.code ++ "\n\n  × " ++ error.message)
  return UInt32.ofNat (Application.status outcome.error)

end Program

end SourceMacros

/-- Expands the macros of source files. -/
def main (args : List String) : IO UInt32 := do
  match SourceMacros.CommandLine.parse args with
  | .ok invocation => SourceMacros.Program.run invocation
  | .error error =>
    let message := SourceMacros.Program.usageMessage error
    if error.status = 0 then IO.print message else IO.eprint message
    return UInt32.ofNat error.status
