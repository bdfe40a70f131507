-- The command line: options, a command, and its one argument. Options may stand before the
-- command or after it.
--
-- An option waits for its value, and a value is only taken for good when the next thing comes:
-- so of two mistakes, the one that comes first in the text need not be the one that is reported.
import SourceMacros.Path

namespace SourceMacros

/-- The options of every command. -/
structure Options where
  config : Option Path := none
  packagesRoot : Option Path := none
  builtinDir : Option Path := none
  hashRecord : Option Path := none
  deriving DecidableEq, Repr

inductive Command where
  /-- Translate a file, or every source below a folder. -/
  | expand (path : Path)
  /-- Print an expanded file. -/
  | print (file : Path)
  deriving DecidableEq, Repr

structure Invocation where
  options : Options
  command : Command
  deriving DecidableEq, Repr

/-- Why a command line starts no run. -/
inductive UsageError where
  | missingArgument
  | missingCommand
  | unknownArgument
  | unknownCommand
  /-- A value is absent or empty. -/
  | invalidValue
  /-- An option is given twice. -/
  | repeatedOption
  /-- A flag has a value. -/
  | unwantedValue
  /-- Help is asked for. -/
  | help
  /-- The version is asked for. -/
  | version
  /-- Nothing is asked for, so help is given. -/
  | helpOnNothing
  deriving DecidableEq, Repr

/-- The exit status of a command line that starts no run. -/
def UsageError.status : UsageError → Nat
  | help => 0
  | version => 0
  | _ => 2

namespace CommandLine

/-! ## One level -/

/-- What a value is for. -/
inductive Slot where
  | config
  | packagesRoot
  | builtinDir
  | hashRecord
  /-- The argument of a command. -/
  | argument
  deriving DecidableEq, Repr

/-- The option spelled so after its two dashes. -/
def option? : String → Option Slot
  | "config" => some .config
  | "packages-root" => some .packagesRoot
  | "builtin-dir" => some .builtinDir
  | "hash-record" => some .hashRecord
  | _ => none

/-- What was read at one level: before the command, or after it. -/
structure Level where
  /-- Values taken for good. -/
  taken : List (Slot × String) := []
  /-- The last option or argument and its value, if that came. -/
  pending : Option (Slot × Option String) := none
  /-- Two dashes alone came, so nothing more is an option. -/
  plain : Bool := false
  deriving DecidableEq, Repr

namespace Level

/-- Takes the pending value for good. -/
def settle (l : Level) : Except UsageError Level :=
  match l.pending with
  | none => .ok l
  | some (_, none) => .error .invalidValue
  | some (slot, some value) =>
    if l.taken.any (·.1 = slot) then .error .repeatedOption
    else if value == "" then .error .invalidValue
    else .ok { l with taken := (slot, value) :: l.taken, pending := none }

/-- The last option still waits for its value. -/
def isWaiting (l : Level) : Bool :=
  match l.pending with
  | some (_, none) => true
  | _ => false

/-- Nothing was given at this level. -/
def isEmpty (l : Level) : Bool := l.taken.isEmpty && l.pending.isNone

/-- The value given for a slot. -/
def value? (l : Level) (slot : Slot) : Option String := (l.taken.find? (·.1 = slot)).map Prod.snd

/-- A word after two dashes: an option, with its value after an equals sign or not, or a flag.
The version can be asked for at the top only. -/
def long (l : Level) (top : Bool) (word : List Char) : Except UsageError Level :=
  let name := String.ofList (word.takeWhile (· != '='))
  let attached := (word.dropWhile (· != '=')).tail?.map String.ofList
  match option? name with
  | some slot => do
    let l ← l.settle
    match attached with
    | none => return { l with pending := some (slot, none) }
    | some value => settle { l with pending := some (slot, some value) }
  | none =>
    if name == "help" || (top && name == "version") then
      if attached.isSome then .error .unwantedValue
      else do
        let _ ← l.settle
        .error (if name == "help" then .help else .version)
    else .error .unknownArgument

/-- Letters after one dash, of which the first decides. -/
def short (l : Level) (top : Bool) (letter : Char) : Except UsageError Level :=
  if letter == 'h' || (top && letter == 'V') then do
    let _ ← l.settle
    .error (if letter == 'h' then .help else .version)
  else .error .unknownArgument

end Level

/-- What kind of word comes next. -/
inductive Word where
  /-- Two dashes alone. -/
  | dashes
  | long (word : List Char)
  | short (letter : Char)
  /-- Any other word, a dash alone included. -/
  | value
  deriving DecidableEq, Repr

def Word.ofText (text : String) : Word :=
  match text.toList with
  | ['-', '-'] => .dashes
  | '-' :: '-' :: word => .long word
  | ['-'] => .value
  | '-' :: letter :: _ => .short letter
  | _ => .value

/-! ## After the command -/

/-- The level after a command, which takes one argument. -/
def commandLevel (l : Level) : List String → Except UsageError Level
  | [] => do
    let l ← l.settle
    if (l.value? .argument).isNone then .error .missingArgument else return l
  | text :: rest => do
    if !l.plain then
      match Word.ofText text with
      | .dashes => return ← commandLevel { l with plain := true } rest
      | .long word => return ← commandLevel (← l.long false word) rest
      | .short letter => return ← commandLevel (← l.short false letter) rest
      | .value =>
        match l.pending with
        | some (slot, none) =>
          return ← commandLevel { l with pending := some (slot, some text) } rest
        | _ => pure ()
    let given := (l.value? .argument).isSome || (l.pending.map Prod.fst) = some .argument
    if given then .error .unknownArgument
    else
      let l ← l.settle
      commandLevel { l with pending := some (.argument, some text) } rest

/-! ## The whole line -/

/-- The commands by name. -/
def command? : String → Option (Path → Command)
  | "expand" => some .expand
  | "print" => some .print
  | _ => none

/-- The words after `help` name a command, or `help` itself, and nothing below it. -/
def helpFor : List String → UsageError
  | [] => .help
  | [name] => if (command? name).isSome || name == "help" then .help else .unknownCommand
  | _ => .unknownCommand

/-- An option takes its value after the command, or else before it. -/
def optionsOf (top below : Level) : Options :=
  let value (slot : Slot) := ((below.value? slot).or (top.value? slot)).map Path.mk
  { config := value .config
    packagesRoot := value .packagesRoot
    builtinDir := value .builtinDir
    hashRecord := value .hashRecord }

/-- The level before the command, and everything after it. -/
def topLevel (l : Level) : List String → Except UsageError Invocation
  | [] => do
    let l ← l.settle
    .error (if l.isEmpty then .helpOnNothing else .missingCommand)
  | text :: rest => do
    if l.plain then
      .error (if (command? text).isSome || text == "help" then .unknownArgument else .unknownCommand)
    else if l.isWaiting then
      match Word.ofText text with
      | .dashes => topLevel { l with plain := true } rest
      | .long word => topLevel (← l.long true word) rest
      | .short letter => topLevel (← l.short true letter) rest
      | .value =>
        let pending := l.pending.map fun (slot, _) => (slot, some text)
        topLevel { l with pending } rest
    else
      match command? text with
      | some command =>
        let below ← commandLevel {} rest
        let top ← l.settle
        return ⟨optionsOf top below, command ⟨(below.value? .argument).getD ""⟩⟩
      | none =>
        if text == "help" then .error (helpFor rest)
        else
          match Word.ofText text with
          | .dashes => topLevel { l with plain := true } rest
          | .long word => topLevel (← l.long true word) rest
          | .short letter => topLevel (← l.short true letter) rest
          | .value => .error .unknownCommand

/-- Reads a command line without the name of the program. -/
def parse (args : List String) : Except UsageError Invocation := topLevel {} args

end CommandLine

end SourceMacros
