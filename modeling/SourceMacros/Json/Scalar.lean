-- The small parts of JSON: blanks, words, strings and numbers. A text is read from left to
-- right, and the first thing that is wrong with it decides the fault.
import SourceMacros.Json.Magnitude
import SourceMacros.LineTable

namespace SourceMacros

namespace Json

/-- How a text fails to be the wanted JSON. -/
inductive Fault where
  /-- It is no JSON. -/
  | malformed
  /-- It ends too early. -/
  | truncated
  /-- It is JSON so far, but not of the wanted shape. -/
  | mismatched
  deriving DecidableEq, Repr

/-- The name of a kind of fault. -/
def Fault.category : Fault → String
  | malformed => "syntax"
  | truncated => "eof"
  | mismatched => "data"

/-- A reader takes a value off the front of a text. -/
abbrev Reader (α : Type) := List Char → Except Fault (α × List Char)

def isBlank (c : Char) : Bool := c == ' ' || c == '\n' || c == '\t' || c == '\r'

def skipBlanks (cs : List Char) : List Char := cs.dropWhile isBlank

/-- The rest of a text after the given word. -/
def afterWord : List Char → List Char → Except Fault (List Char)
  | [], cs => .ok cs
  | _ :: _, [] => .error .truncated
  | w :: ws, c :: cs => if c = w then afterWord ws cs else .error .malformed

/-! ## Strings -/

def hexDigit? (c : Char) : Option Nat :=
  if c.isDigit then some (c.toNat - 48)
  else if 'a' ≤ c ∧ c ≤ 'f' then some (c.toNat - 87)
  else if 'A' ≤ c ∧ c ≤ 'F' then some (c.toNat - 55)
  else none

/-- The number that four hexadecimal digits write. -/
def hexUnit? (a b c d : Char) : Option Nat := do
  let a ← hexDigit? a
  let b ← hexDigit? b
  let c ← hexDigit? c
  let d ← hexDigit? d
  return ((a * 16 + b) * 16 + c) * 16 + d

/-- The fault of a text too short for four hexadecimal digits. Four bytes that are no four
characters are no digits either. -/
def shortUnit (cs : List Char) : Fault := if byteLength cs < 4 then .truncated else .malformed

/-- The character that a letter after a backslash stands for. -/
def escaped? : Char → Option Char
  | '"' => some '"'
  | '\\' => some '\\'
  | '/' => some '/'
  | 'b' => some '\x08'
  | 'f' => some '\x0c'
  | 'n' => some '\n'
  | 'r' => some '\r'
  | 't' => some '\t'
  | _ => none

def isHighSurrogate (n : Nat) : Bool := 0xd800 ≤ n && n < 0xdc00

def isLowSurrogate (n : Nat) : Bool := 0xdc00 ≤ n && n < 0xe000

/-- A character before what is read after it. -/
def prepend (c : Char) (r : Except Fault (List Char × List Char)) :
    Except Fault (List Char × List Char) :=
  r.map fun (text, rest) => (c :: text, rest)

/-- The rest of a string after its opening quote. A surrogate must be half of a pair, and control
characters must be escaped. -/
def stringTail : List Char → Except Fault (List Char × List Char)
  | [] => .error .truncated
  | '"' :: rest => .ok ([], rest)
  | '\\' :: [] => .error .truncated
  | '\\' :: 'u' :: a :: b :: c :: d :: rest =>
    match hexUnit? a b c d with
    | none => .error .malformed
    | some high =>
      if isLowSurrogate high then .error .malformed
      else if isHighSurrogate high then
        match rest with
        | [] => .error .truncated
        | '\\' :: [] => .error .truncated
        | '\\' :: 'u' :: a :: b :: c :: d :: rest =>
          match hexUnit? a b c d with
          | none => .error .malformed
          | some low =>
            if isLowSurrogate low then
              prepend (Char.ofNat ((high - 0xd800) * 0x400 + (low - 0xdc00) + 0x10000))
                (stringTail rest)
            else .error .malformed
        | '\\' :: 'u' :: rest => .error (shortUnit rest)
        | _ => .error .malformed
      else prepend (Char.ofNat high) (stringTail rest)
  | '\\' :: 'u' :: rest => .error (shortUnit rest)
  | '\\' :: c :: rest =>
    match escaped? c with
    | none => .error .malformed
    | some c => prepend c (stringTail rest)
  | c :: rest => if c.toNat < 0x20 then .error .malformed else prepend c (stringTail rest)

/-- The rest of a text after a string that nobody wants. Any four hexadecimal digits will do. -/
def skipString : List Char → Except Fault (List Char)
  | [] => .error .truncated
  | '"' :: rest => .ok rest
  | '\\' :: [] => .error .truncated
  | '\\' :: 'u' :: a :: b :: c :: d :: rest =>
    if (hexUnit? a b c d).isSome then skipString rest else .error .malformed
  | '\\' :: 'u' :: rest => .error (shortUnit rest)
  | '\\' :: c :: rest => if (escaped? c).isSome then skipString rest else .error .malformed
  | c :: rest => if c.toNat < 0x20 then .error .malformed else skipString rest

/-! ## Numbers -/

def isDigit (c : Char) : Bool := c.isDigit

/-- The digits at the front of a text, of which there must be one, and the rest. -/
def someDigits (cs : List Char) (none : Fault) : Except Fault (List Char × List Char) :=
  match cs.takeWhile isDigit with
  | [] => .error (if cs.isEmpty then none else .malformed)
  | digits => .ok (digits, cs.dropWhile isDigit)

/-- The whole part of a number, which has no idle zero in front. -/
def wholePart (cs : List Char) (none : Fault) : Except Fault (List Char × List Char) :=
  match cs with
  | '0' :: rest =>
    if (rest.head?.map isDigit).getD false then .error .malformed else .ok (['0'], rest)
  | cs => someDigits cs none

/-- The fraction of a number, if it has one. -/
def fractionPart (cs : List Char) (none : Fault) : Except Fault (List Char × List Char) :=
  match cs with
  | '.' :: rest => someDigits rest none
  | cs => .ok ([], cs)

/-- The sign of an exponent (true for a negative one), its digits, and the rest. -/
def exponentPart (cs : List Char) (none : Fault) : Except Fault (Bool × List Char × List Char) :=
  match cs with
  | c :: rest =>
    if c = 'e' ∨ c = 'E' then
      let negative := rest.head? == some '-'
      let rest := if negative || rest.head? == some '+' then rest.drop 1 else rest
      (someDigits rest none).map fun (digits, rest) => (negative, digits, rest)
    else .ok (false, [], c :: rest)
  | [] => .ok (false, [], [])

/-- The rest of a text after a number without its minus sign that nobody wants. Its magnitude
does not matter, and a text that ends inside it is no JSON. -/
def skipNumber (cs : List Char) : Except Fault (List Char) := do
  let (_, cs) ← wholePart cs .malformed
  let (_, cs) ← fractionPart cs .malformed
  let (_, _, cs) ← exponentPart cs .malformed
  return cs

/-- The fault of a number, without its minus sign, where something else is wanted. One too large
to be a double-precision number is no JSON. -/
def numberFault (cs : List Char) : Fault :=
  let read : Except Fault Bool := do
    let (whole, cs) ← wholePart cs .truncated
    let (fraction, cs) ← fractionPart cs .truncated
    let (negative, exponent, _) ← exponentPart cs .truncated
    return isHuge whole fraction negative exponent
  match read with
  | .ok huge => if huge then .malformed else .mismatched
  | .error fault => fault

/-! ## Values of the wrong kind -/

/-- The fault of a text at which a value of another kind is wanted. The value that stands there
must itself be well-formed up to where its kind is known. -/
def wrongKind (cs : List Char) : Fault :=
  match cs with
  | [] => .truncated
  | 'n' :: rest => afterAll (afterWord "ull".toList rest)
  | 't' :: rest => afterAll (afterWord "rue".toList rest)
  | 'f' :: rest => afterAll (afterWord "alse".toList rest)
  | '-' :: rest => numberFault rest
  | '"' :: rest => afterAll ((stringTail rest).map Prod.snd)
  | '[' :: _ => .mismatched
  | '{' :: _ => .mismatched
  | c :: rest => if isDigit c then numberFault (c :: rest) else .malformed
where
  /-- The value was well-formed, so its kind is wrong. -/
  afterAll : Except Fault (List Char) → Fault
    | .ok _ => .mismatched
    | .error fault => fault

/-- Reads a string. -/
def text : Reader String := fun cs =>
  match skipBlanks cs with
  | '"' :: rest => (stringTail rest).map fun (cs, rest) => (String.ofList cs, rest)
  | cs => .error (wrongKind cs)

/-- Reads `null`, or else what the given reader reads. -/
def nullable {α : Type} (read : Reader α) : Reader (Option α) := fun cs =>
  match skipBlanks cs with
  | 'n' :: rest => (afterWord "ull".toList rest).map fun rest => (none, rest)
  | cs => (read cs).map fun (value, rest) => (some value, rest)

end Json

end SourceMacros
