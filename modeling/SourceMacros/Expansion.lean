-- Expansion: one pass over the tokens of a source. Lines are copied as they stand, each at most
-- once; an import directive leaves a comment, and an invocation leaves what its plugin wrote.
--
-- A pass resolves references by a function it is given. That function may run further passes over
-- the files of a package.
import SourceMacros.Directive
import SourceMacros.Session

namespace SourceMacros

/-! ## Output -/

/-- A part of the output. -/
inductive Chunk where
  /-- The source lines from the first to the last, both included. -/
  | copied (first last : Nat)
  /-- A text that is not in the source. -/
  | inserted (text : String)
  deriving DecidableEq, Repr

/-- The text of a part. -/
def Chunk.render (table : LineTable) : Chunk → String
  | copied first last => table.between first last
  | inserted text => text

/-- What one pass keeps account of. -/
structure Pass (μ : Type) where
  /-- The imported definitions, in the order of their directives. -/
  available : List (Definition μ) := []
  /-- The indentation of the open blocks. -/
  indentation : List Char := []
  /-- The parts of the output so far, the newest first. -/
  chunks : List Chunk := []
  /-- Every line up to this one has been copied or replaced. -/
  emitted : Nat := 0

namespace Pass

variable {μ : Type}

/-- Copies the lines up to one that were not copied or replaced yet. -/
def copyThrough (p : Pass μ) (line : Nat) : Pass μ :=
  if p.emitted < line then
    { p with chunks := .copied (p.emitted + 1) line :: p.chunks, emitted := line }
  else p

/-- Takes the lines up to one as replaced. -/
def skipThrough (p : Pass μ) (line : Nat) : Pass μ := { p with emitted := max p.emitted line }

/-- Adds a text that is not in the source. -/
def insert (p : Pass μ) (text : String) : Pass μ := { p with chunks := .inserted text :: p.chunks }

/-- The whole output. -/
def render (p : Pass μ) (table : LineTable) : String :=
  String.join (p.chunks.reverse.map (Chunk.render table))

/-- The first imported definition with a keyword. -/
def trigger? (p : Pass μ) (keyword : String) : Option (Definition μ) :=
  p.available.find? (·.keyword == keyword)

/-- The imported keywords, in the order of their directives. -/
def keywords (p : Pass μ) : List String := p.available.map Definition.keyword

@[simp]
theorem available_copyThrough (p : Pass μ) (line : Nat) :
    (p.copyThrough line).available = p.available := by
  unfold copyThrough
  split <;> rfl

@[simp]
theorem available_skipThrough (p : Pass μ) (line : Nat) :
    (p.skipThrough line).available = p.available := rfl

@[simp]
theorem available_insert (p : Pass μ) (text : String) :
    (p.insert text).available = p.available := rfl

end Pass

/-- A text on lines of its own, each line that is not empty behind the indentation. -/
def spliced (indentation : List Char) (text : String) : String :=
  let lines := (Pieces.split '\n' text.toList).map fun line =>
    if line.isEmpty then [] else indentation ++ line
  String.ofList ('\n' :: Pieces.join '\n' lines ++ ['\n'])

/-- The last line that the tokens from one index to another reach. The end of a block counts as
part of the line before it. -/
def lastLine (stream : Stream) (first last : Nat) : Nat :=
  ((stream.between first last).filter (·.kind != .dedent)).foldl (fun n t => max n t.stop.line) 0

/-! ## The pass -/

structure PassState (μ : Type) where
  session : Session μ
  stream : Stream
  pass : Pass μ

/-- An operation of a pass. A failure keeps the state it left behind. -/
abbrev PassRun (μ : Type) := EStateM Error (PassState μ)

namespace PassRun

variable {μ : Type}

/-- Changes what the pass keeps account of. -/
def update (f : Pass μ → Pass μ) : PassRun μ Unit := modify fun s => { s with pass := f s.pass }

@[simp]
theorem update_apply (f : Pass μ → Pass μ) (s : PassState μ) :
    update f s = .ok () { s with pass := f s.pass } := rfl

/-- Runs an operation of the session. -/
def onSession {α : Type} (run : Run μ α) : PassRun μ α := fun s =>
  match run s.session with
  | .ok value session => .ok value { s with session }
  | .error error session => .error error { s with session }

/-- Runs a parser on the shared stream. What comes back from it is how far it read: the tokens
stay, and the cursor never moves back. -/
def onStream {α : Type} (parse : Parser μ α) : PassRun μ α := fun s =>
  let back (p : ParseState μ) : PassState μ :=
    { s with
      stream := { s.stream with cursor := max s.stream.cursor p.stream.cursor }
      session := { s.session with interrupted := p.interrupted, memory := p.memory } }
  match parse ⟨s.stream, s.session.interrupted, s.session.memory⟩ with
  | .ok value p => .ok value (back p)
  | .error error p => .error error (back p)

/-- Takes the lines of the tokens from an index up to the cursor as replaced. -/
def replaceFrom (start : Nat) : PassRun μ Unit := do
  let stream := (← get).stream
  update (·.skipThrough (lastLine stream start stream.cursor))

/-- An import directive, whose keyword stands at an index. -/
def importDirective (resolve : String → Run μ (Definition μ)) (keyword : Token) (start : Nat) :
    PassRun μ Unit := do
  update (·.copyThrough (keyword.start.line - 1))
  let directive ← onStream Directive.parse
  let definition ← onSession (resolve directive.reference)
  update fun p => { p with available := p.available ++ [definition] }
  update (·.insert directive.comment)
  replaceFrom start

/-- An invocation, whose keyword stands at an index. -/
def invocation (definition : Definition μ) (keyword : Token) (start : Nat) : PassRun μ Unit := do
  update (·.copyThrough (keyword.start.line - 1))
  let text ← onStream definition.plugin.expand
  update fun p => p.insert (spliced p.indentation text)
  replaceFrom start

/-- Copies the lines of a token that starts nothing. -/
def plain (token : Token) : PassRun μ Unit :=
  match token.kind with
  | .dedent => pure ()
  | .newline => pure ()
  | _ => update (·.copyThrough token.stop.line)

/-- A token that starts nothing has its lines copied, or does nothing at all. -/
theorem plain_eq (token : Token) : plain (μ := μ) token = pure () ∨
    plain (μ := μ) token = update (·.copyThrough token.stop.line) := by
  unfold plain
  split
  · exact Or.inl rfl
  · exact Or.inl rfl
  · exact Or.inr rfl

/-- The next token and whatever it starts. -/
def step (resolve : String → Run μ (Definition μ)) : PassRun μ Unit := do
  let s ← get
  if s.session.interrupted then throw .interrupted
  let token := s.stream.peek
  let start := s.stream.cursor
  set { s with stream := s.stream.skip }
  match token.kind with
  | .indent => update fun p => { p with indentation := p.indentation ++ token.text.toList }
  | .dedent =>
    update fun p =>
      { p with indentation := p.indentation.take (p.indentation.length - token.text.length) }
  | .name =>
    if token.text = s.session.settings.importKeyword then importDirective resolve token start
    else
      match s.pass.trigger? token.text with
      | some definition => invocation definition token start
      | none => plain token
  | _ => plain token

/-- The steps up to the end of the stream. Each one moves the cursor, so there are at most as many
as there are tokens left. -/
def steps (resolve : String → Run μ (Definition μ)) : Nat → PassRun μ Unit
  | 0 => pure ()
  | n + 1 => do
    if (← get).stream.atEnd then pure ()
    else
      step resolve
      steps resolve n

/-- A whole pass from the cursor on. It starts with nothing imported and nothing written. -/
def expandStream (resolve : String → Run μ (Definition μ)) : PassRun μ String := do
  update fun _ => {}
  let stream := (← get).stream
  steps resolve (stream.front.size - stream.cursor)
  let table := (← get).stream.lines
  update (·.copyThrough table.size)
  return (← get).pass.render table

end PassRun

/-! ## Texts and files -/

/-- A session and the account of the last pass over it. -/
abbrev ExpandRun (μ : Type) := EStateM Error (Session μ × Pass μ)

section

variable {μ : Type}

/-- Expands a text. A text that does not lex starts no pass, so the last account stays. -/
def expandTextVia (resolve : String → Run μ (Definition μ)) (name text : String) :
    ExpandRun μ String := fun (session, pass) =>
  match Stream.ofSource name text with
  | .error fault => .error (.grammar fault) (session, pass)
  | .ok stream =>
    match PassRun.expandStream resolve { session, stream, pass } with
    | .ok output s => .ok output (s.session, s.pass)
    | .error error s => .error error (s.session, s.pass)

/-- Runs a pass with an account of its own. -/
def freshPass {α : Type} (run : ExpandRun μ α) : Run μ α := fun session =>
  match run (session, {}) with
  | .ok value (session, _) => .ok value session
  | .error error (session, _) => .error error session

/-- The folder of a file: where packages are looked for while the file is expanded. -/
def searchFolder (file : Path) : Path :=
  match file.parent? with
  | some parent => if parent.text == "" then ⟨"."⟩ else parent
  | none => ⟨"."⟩

/-- Runs an operation with another folder to look for packages in. The old one comes back, whether
it fails or not. -/
def withSearchRoot {α : Type} (root : Path) (run : Run μ α) : Run μ α := fun session =>
  match run { session with searchRoot := root } with
  | .ok value s => .ok value { s with searchRoot := session.searchRoot }
  | .error error s => .error error { s with searchRoot := session.searchRoot }

/-- Expands a file. -/
def expandFileVia (resolve : String → Run μ (Definition μ)) (path : Path) : Run μ String := do
  let text ← Run.readText path
  withSearchRoot (searchFolder path) (freshPass (expandTextVia resolve path.text text))

/-- Expands a file and writes the output beside it. The path of the output is returned. -/
def translateFileVia (resolve : String → Run μ (Definition μ)) (path : Path) : Run μ Path := do
  let output ← expandFileVia resolve path
  let target ← Run.outputPath path
  if target.same path then throw (.internal (.wouldOverwrite path))
  Run.writeThrough target output
  return target

/-- The sources below a folder, in the order of a walk. A place the walk cannot go into is an
error. -/
def sourcesBelow (session : Session μ) (dir : Path) : Except Error (List Path) :=
  let refused := (session.tree.walk dir).findSome? fun
    | .refused path cause => some (Error.io path (.walk path cause))
    | .entry _ _ _ => none
  match refused with
  | some error => .error error
  | none => .ok ((session.tree.walk dir).filterMap fun
    | .entry path _ (.file _) => if session.settings.isSource path then some path else none
    | _ => none)

/-- Translates every source below a folder. -/
def translateFolderVia (resolve : String → Run μ (Definition μ)) (dir : Path) :
    Run μ (List Path) := do
  let sources ← Run.ofExcept (sourcesBelow (← get) dir)
  sources.mapM (translateFileVia resolve)

end

end SourceMacros
