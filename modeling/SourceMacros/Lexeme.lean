-- Lexemes: the first cut of a source text. Every character belongs to exactly one lexeme,
-- and each lexeme is the longest one that can start where it starts.
import SourceMacros.Text.NameChar

namespace SourceMacros

inductive LexemeKind where
  /-- Spaces, tabs and form feeds. -/
  | blank
  /-- A line feed, after a carriage return or not. -/
  | lineBreak
  /-- A backslash before a line break, which joins two physical lines. -/
  | joinedBreak
  | comment
  | name
  | number
  | string
  | operator
  deriving DecidableEq, Repr

structure Lexeme where
  kind : LexemeKind
  text : List Char
  deriving DecidableEq, Repr

/-- Why no lexeme can start at a place. -/
inductive ScanFault where
  /-- A string literal that is never closed, with its marks and opening quotes. -/
  | unterminated (opening : List Char)
  /-- A character that starts no lexeme. -/
  | unexpected (c : Char)
  deriving DecidableEq, Repr

namespace Lexeme

/-! ## Blanks and comments -/

/-- The characters of indentation. -/
def isBlank (c : Char) : Bool := c == ' ' || c == '\t' || c == '\x0c'

/-- A character that may stand in a comment. -/
def isCommentChar (c : Char) : Bool := c != '\r' && c != '\n'

/-! ## Strings -/

def isQuote (c : Char) : Bool := c == '"' || c == '\''

/-- The letters that may mark a string before its opening quote. -/
def isStringMark (c : Char) : Bool := "rRbBfFuU".toList.contains c

/-- How many marks stand before an opening quote, and the quote. At most two marks may. -/
def opening? : List Char → Option (Nat × Char)
  | a :: rest =>
    if isQuote a then some (0, a)
    else if isStringMark a then
      match rest with
      | b :: rest =>
        if isQuote b then some (1, b)
        else if isStringMark b then
          match rest with
          | c :: _ => if isQuote c then some (2, c) else none
          | [] => none
        else none
      | [] => none
    else none
  | [] => none

/-- The length of a string body with its closing quote, of which `passed` characters came before.
A backslash hides the character after it, and the body may not run past the end of its line. -/
def closing? (quote : Char) (passed : Nat) : List Char → Option Nat
  | [] => none
  | '\\' :: [] => none
  | '\\' :: _ :: rest => closing? quote (passed + 2) rest
  | c :: rest =>
    if c = '\n' then none
    else if c = quote then some (passed + 1)
    else closing? quote (passed + 1) rest

/-- The length of a string body with its three closing quotes, of which `passed` characters came
before. The body may span lines. -/
def tripleClosing? (quote : Char) (passed : Nat) : List Char → Option Nat
  | [] => none
  | '\\' :: [] => none
  | '\\' :: _ :: rest => tripleClosing? quote (passed + 2) rest
  | c :: rest =>
    if c = quote ∧ rest.take 2 = [quote, quote] then some (passed + 3)
    else tripleClosing? quote (passed + 1) rest

/-- The length of the string literal at the front of a text whose opening quote stands after
`marks` marks. Three quotes in a row open a triple-quoted string. -/
def stringLength (marks : Nat) (quote : Char) (cs : List Char) : Except ScanFault Nat :=
  let body := cs.drop (marks + 1)
  if body.take 2 = [quote, quote] then
    match tripleClosing? quote (marks + 3) (body.drop 2) with
    | some n => .ok n
    | none => .error (.unterminated (cs.take (marks + 3)))
  else
    match closing? quote (marks + 1) body with
    | some n => .ok n
    | none => .error (.unterminated (cs.take (marks + 1)))

/-! ## Numbers -/

/-- A decimal digit or a digit separator. -/
def isDigitChar (c : Char) : Bool := c.isDigit || c == '_'

def isHexDigit (c : Char) : Bool :=
  c.isDigit || ('a' ≤ c && c ≤ 'f') || ('A' ≤ c && c ≤ 'F')

/-- The digits that may follow a zero and this letter. -/
def radixDigit? (letter : Char) : Option (Char → Bool) :=
  match letter with
  | 'x' | 'X' => some fun c => isHexDigit c || c == '_'
  | 'o' | 'O' => some fun c => ('0' ≤ c && c ≤ '7') || c == '_'
  | 'b' | 'B' => some fun c => c == '0' || c == '1' || c == '_'
  | _ => none

/-- The length of a number in another radix, which needs at least one digit. -/
def radixLength? : List Char → Option Nat
  | '0' :: letter :: rest =>
    (radixDigit? letter).bind fun isDigit =>
      let n := (rest.takeWhile isDigit).length
      if n = 0 then none else some (n + 2)
  | _ => none

/-- The length of an exponent at the front of a text, 0 if there is none. -/
def exponentLength : List Char → Nat
  | c :: rest =>
    if c = 'e' ∨ c = 'E' then
      let sign := match rest with
        | s :: _ => if s = '+' ∨ s = '-' then 1 else 0
        | [] => 0
      let n := ((rest.drop sign).takeWhile isDigitChar).length
      if n = 0 then 0 else 1 + sign + n
    else 0
  | [] => 0

/-- The length of an imaginary mark at the front of a text. -/
def imaginaryLength : List Char → Nat
  | c :: _ => if c = 'j' ∨ c = 'J' then 1 else 0
  | [] => 0

/-- The length of a fraction at the front of a text: a point and any digits. -/
def fractionLength : List Char → Nat
  | '.' :: rest => 1 + (rest.takeWhile isDigitChar).length
  | _ => 0

/-- `n` and the lengths of the exponent and the imaginary mark behind the first `n` characters. -/
def withExponent (n : Nat) (cs : List Char) : Nat :=
  let m := n + exponentLength (cs.drop n)
  m + imaginaryLength (cs.drop m)

/-- The length of the number at the front of a text: it starts with a digit, or with a point and
a digit. -/
def numberLength? : List Char → Option Nat
  | '.' :: d :: rest =>
    if d.isDigit then
      some (withExponent (2 + (rest.takeWhile isDigitChar).length) ('.' :: d :: rest))
    else none
  | c :: rest =>
    if c.isDigit then
      match radixLength? (c :: rest) with
      | some n => some n
      | none =>
        let whole := 1 + (rest.takeWhile isDigitChar).length
        some (withExponent (whole + fractionLength ((c :: rest).drop whole)) (c :: rest))
    else none
  | [] => none

/-! ## Operators -/

/-- The operators of three characters. -/
def longOperators : List (List Char) := ["**=", "//=", ">>=", "<<=", "..."].map String.toList

/-- The operators of two characters. -/
def shortOperators : List (List Char) :=
  ["!=", "%=", "&=", "**", "*=", "+=", "-=", "->", "//", "/=", ":=", "<<", "<=", "==", ">=", ">>",
    "@=", "^=", "|="].map String.toList

/-- The operators and delimiters of one character. -/
def isOperatorChar (c : Char) : Bool :=
  ['%', '&', '(', ')', '*', '+', ',', '-', '.', '/', ':', ';', '<', '=', '>', '@', '[', ']', '^',
    '{', '|', '}', '~', '!'].contains c

/-- The length of the longest operator at the front of a text. -/
def operatorLength? (cs : List Char) : Option Nat :=
  if longOperators.contains (cs.take 3) then some 3
  else if shortOperators.contains (cs.take 2) then some 2
  else if cs.head?.any isOperatorChar then some 1
  else none

/-! ## The scanner -/

/-- The kind of the lexeme at the front of a text that starts with `c`, and how many characters
it has after `c`. -/
def head (c : Char) (cs : List Char) : Except ScanFault (LexemeKind × Nat) :=
  if isBlank c then .ok (.blank, (cs.takeWhile isBlank).length)
  else if c = '\n' then .ok (.lineBreak, 0)
  else if c = '\r' ∧ cs.take 1 = ['\n'] then .ok (.lineBreak, 1)
  else if c = '\\' ∧ cs.take 1 = ['\n'] then .ok (.joinedBreak, 1)
  else if c = '\\' ∧ cs.take 2 = ['\r', '\n'] then .ok (.joinedBreak, 2)
  else if c = '#' then .ok (.comment, (cs.takeWhile isCommentChar).length)
  else
    match opening? (c :: cs) with
    | some (marks, quote) => (stringLength marks quote (c :: cs)).map fun n => (.string, n - 1)
    | none =>
      if NameChar.isStart c then .ok (.name, (cs.takeWhile NameChar.isContinue).length)
      else
        match numberLength? (c :: cs) with
        | some n => .ok (.number, n - 1)
        | none =>
          match operatorLength? (c :: cs) with
          | some n => .ok (.operator, n - 1)
          | none => .error (.unexpected c)

/-- The lexemes in `found`, and behind them those of a text without its first `n` characters, which
belong to the last lexeme found. -/
def scanFrom (found : Array Lexeme) : Nat → List Char → Array Lexeme × Option ScanFault
  | _, [] => (found, none)
  | n + 1, _ :: cs => scanFrom found n cs
  | 0, c :: cs =>
    match head c cs with
    | .error fault => (found, some fault)
    | .ok (kind, n) => scanFrom (found.push ⟨kind, c :: cs.take n⟩) n cs

/-- The lexemes of a text, up to the first place where none can start. -/
def scan (cs : List Char) : Array Lexeme × Option ScanFault := scanFrom #[] 0 cs

/-! ## Laws -/

/-- What was found before stays in front. -/
theorem scanFrom_eq_append (found : Array Lexeme) (n : Nat) (cs : List Char) :
    scanFrom found n cs = (found ++ (scanFrom #[] n cs).1, (scanFrom #[] n cs).2) := by
  induction cs generalizing found n with
  | nil => simp [scanFrom]
  | cons c cs ih =>
    cases n with
    | succ n => simpa [scanFrom] using ih found n
    | zero =>
      simp only [scanFrom]
      split
      · simp
      · next kind n _ =>
        rw [ih (found.push _) n, ih (#[].push _) n]
        simp [← Array.append_assoc]

/-- Characters that belong to a lexeme before are passed over. -/
theorem scanFrom_eq_scan_drop (n : Nat) (cs : List Char) :
    scanFrom #[] n cs = scan (cs.drop n) := by
  induction cs generalizing n with
  | nil => simp [scanFrom, scan]
  | cons c cs ih =>
    cases n with
    | zero => rfl
    | succ n => simpa [scanFrom] using ih n

/-- A text starts with the lexeme at its front, and goes on behind it. -/
theorem scan_cons {c : Char} {cs : List Char} {kind : LexemeKind} {n : Nat}
    (h : head c cs = .ok (kind, n)) :
    scan (c :: cs) =
      (#[⟨kind, c :: cs.take n⟩] ++ (scan (cs.drop n)).1, (scan (cs.drop n)).2) := by
  simp only [scan, scanFrom, h]
  rw [scanFrom_eq_append, scanFrom_eq_scan_drop]
  simp [scan]

end Lexeme

end SourceMacros
