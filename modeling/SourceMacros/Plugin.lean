-- Plugins: the code behind a keyword. A plugin parses what follows its keyword, checks the tree
-- it built, and gives the text that takes the place of the invocation.
import SourceMacros.Stream

namespace SourceMacros

/-! ## Parsers -/

/-- What a parser works on: the shared stream, the flag that stops the run, and whatever plugins
remember from one invocation to the next. -/
structure ParseState (μ : Type) where
  stream : Stream
  interrupted : Bool
  memory : μ

/-- A parser keeps the state it reached when it fails. -/
abbrev Parser (μ : Type) := EStateM Error (ParseState μ)

namespace Parser

variable {μ : Type}

/-- Runs an operation of the stream. -/
def onStream {α : Type} (f : Stream → α × Stream) : Parser μ α := fun s =>
  let (value, stream) := f s.stream
  .ok value { s with stream }

/-- The token under the cursor, which is stepped over. -/
def advance : Parser μ Token := onStream Stream.advance

/-- Steps over the token under the cursor if one of the matchers accepts it. -/
def tryMatch (ms : List Matcher) : Parser μ Bool := onStream (·.tryMatch ms)

/-- Steps over a wanted token, or fails where it should stand. -/
def consume (m : Matcher) (context : String) : Parser μ Token := do
  match ← onStream (·.consume m context) with
  | .ok token => return token
  | .error fault => throw (.grammar fault)

/-- Fails at the token under the cursor. -/
def failHere {α : Type} (context : String) : Parser μ α := do
  throw (.grammar ((← get).stream.faultHere context))

end Parser

/-! ## Trees -/

/-- The content of a parsed invocation. -/
inductive Datum where
  | unit
  | number (n : Nat)
  | text (s : String)
  | list (items : List Datum)

/-- A parsed invocation with the name of its kind. Only a plugin for the same kind can use it. -/
structure Ast where
  kind : String
  content : Datum

namespace Ast

/-- The name of its kind, as shown to a reader. -/
def debug (a : Ast) : String := "MacroAst \x7b kind: " ++ Quoted.quote a.kind ++ " \x7d"

/-- The content, if the tree is of the given kind. -/
def expect (a : Ast) (kind : String) : Except Error Datum :=
  if a.kind = kind then .ok a.content else .error (.internal (.wrongTree a.kind kind))

end Ast

/-! ## Plugins -/

/-- An implementation for one kind of tree. -/
structure Plugin (μ : Type) where
  /-- The name of the kind of tree it builds and works on. -/
  kind : String
  parse : Parser μ Datum
  /-- Refuses a tree that makes no sense. -/
  lint : Datum → Except Error Unit := fun _ => .ok ()
  translate : Datum → String

namespace Plugin

variable {μ : Type}

/-- The tree of an invocation. -/
def parseAst (p : Plugin μ) : Parser μ Ast := return ⟨p.kind, ← p.parse⟩

def lintAst (p : Plugin μ) (a : Ast) : Except Error Unit := do p.lint (← a.expect p.kind)

def translateAst (p : Plugin μ) (a : Ast) : Except Error String :=
  return p.translate (← a.expect p.kind)

/-- The whole life of an invocation: parse, check, translate. -/
def expand (p : Plugin μ) : Parser μ String := do
  let tree ← p.parseAst
  match p.lintAst tree with
  | .error e => throw e
  | .ok () =>
    match p.translateAst tree with
    | .error e => throw e
    | .ok text => return text

/-- The greeting: it takes no tokens and prints a line. -/
def hello : Plugin μ where
  kind := "()"
  parse := return .unit
  translate := fun _ => "print(\"Hello World\")"

end Plugin

end SourceMacros
