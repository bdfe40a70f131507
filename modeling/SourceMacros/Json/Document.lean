-- Arrays, objects and whole documents. A record may be written as an object, its fields in any
-- order among fields that nobody knows, or as an array of its fields in their fixed order.
import SourceMacros.Json.Scalar

namespace SourceMacros

namespace Json

/-! ## Values that nobody wants -/

/-- What encloses a value: true for an object, false for an array. -/
abbrev Enclosure := Bool

/-- The rest of a text after a key and its colon. -/
def skipKey (cs : List Char) : Except Fault (List Char) :=
  match skipBlanks cs with
  | [] => .error .truncated
  | '"' :: rest => do
    match skipBlanks (← skipString rest) with
    | [] => .error .truncated
    | ':' :: rest => .ok rest
    | _ => .error .malformed
  | _ => .error .malformed

/-- The rest of a text after a value that is neither array nor object. -/
def skipScalar (cs : List Char) : Except Fault (List Char) :=
  match cs with
  | [] => .error .truncated
  | 'n' :: rest => afterWord "ull".toList rest
  | 't' :: rest => afterWord "rue".toList rest
  | 'f' :: rest => afterWord "alse".toList rest
  | '-' :: rest => skipNumber rest
  | '"' :: rest => skipString rest
  | c :: rest => if isDigit c then skipNumber (c :: rest) else .error .malformed

/-- The rest of a text after the values still open. With `wanted`, a value comes next; without,
one has just ended. -/
def skipFrom : Nat → Bool → List Enclosure → List Char → Except Fault (List Char)
  | 0, _, _, _ => .error .truncated
  | fuel + 1, true, frames, cs =>
    match skipBlanks cs with
    | '[' :: rest =>
      match skipBlanks rest with
      | ']' :: rest => skipFrom fuel false frames rest
      | rest => skipFrom fuel true (false :: frames) rest
    | '{' :: rest =>
      match skipBlanks rest with
      | '}' :: rest => skipFrom fuel false frames rest
      | rest => do skipFrom fuel true (true :: frames) (← skipKey rest)
    | cs => do skipFrom fuel false frames (← skipScalar cs)
  | _ + 1, false, [], cs => .ok cs
  | fuel + 1, false, enclosure :: outer, cs =>
    match skipBlanks cs with
    | [] => .error .truncated
    | ',' :: rest =>
      if enclosure then do skipFrom fuel true (enclosure :: outer) (← skipKey rest)
      else skipFrom fuel true (enclosure :: outer) rest
    | c :: rest =>
      if c = (if enclosure then '}' else ']') then skipFrom fuel false outer rest
      else .error .malformed

/-- The rest of a text after one value, whatever it is. Every step but the last takes a character,
so the text is as good a bound as any. -/
def skipValue (cs : List Char) : Except Fault (List Char) :=
  skipFrom (cs.length + 1) true [] cs

/-! ## Arrays and objects -/

/-- The text at the next element of an array, or `none` before the closing bracket. -/
def nextElement (first : Bool) (cs : List Char) : Except Fault (Option (List Char)) :=
  match skipBlanks cs with
  | [] => .error .truncated
  | ']' :: _ => .ok none
  | c :: rest =>
    if first then .ok (some (c :: rest))
    else if c = ',' then
      match skipBlanks rest with
      | [] => .error .truncated
      | ']' :: _ => .error .malformed
      | rest => .ok (some rest)
    else .error .malformed

/-- The rest of a text after the closing bracket of an array. -/
def endArray (cs : List Char) : Except Fault (List Char) :=
  match skipBlanks cs with
  | [] => .error .truncated
  | ']' :: rest => .ok rest
  | _ => .error .malformed

/-- The key of the next member of an object and the text after it, or `none` before the closing
brace. -/
def nextKey (first : Bool) (cs : List Char) : Except Fault (Option (String × List Char)) :=
  match skipBlanks cs with
  | [] => .error .truncated
  | '}' :: _ => .ok none
  | c :: rest => do
    let cs ←
      if first then .ok (c :: rest)
      else if c = ',' then .ok (skipBlanks rest)
      else .error .malformed
    match cs with
    | [] => .error .truncated
    | '"' :: rest =>
      let (key, rest) ← stringTail rest
      return some (String.ofList key, rest)
    | _ => .error .malformed

/-- The rest of a text after a colon. -/
def afterColon (cs : List Char) : Except Fault (List Char) :=
  match skipBlanks cs with
  | [] => .error .truncated
  | ':' :: rest => .ok rest
  | _ => .error .malformed

/-- The elements of an array after its opening bracket. -/
def elements {α : Type} (read : Reader α) : Nat → Bool → Reader (List α)
  | 0, _, _ => .error .truncated
  | fuel + 1, first, cs => do
    match ← nextElement first cs with
    | none => return ([], ← endArray cs)
    | some cs =>
      let (value, cs) ← read cs
      let (values, cs) ← elements read fuel false cs
      return (value :: values, cs)

/-- Reads an array. -/
def array {α : Type} (read : Reader α) : Reader (List α) := fun cs =>
  match skipBlanks cs with
  | '[' :: rest => elements read (rest.length + 1) true rest
  | cs => .error (wrongKind cs)

/-- The members of an object after its opening brace, each handed to `member` with its key. -/
def members {σ : Type} (member : String → σ → Reader σ) : Nat → Bool → σ → Reader σ
  | 0, _, _, _ => .error .truncated
  | fuel + 1, first, state, cs => do
    match ← nextKey first cs with
    | none => return (state, (skipBlanks cs).drop 1)
    | some (key, cs) =>
      let (state, cs) ← member key state cs
      members member fuel false state cs

/-! ## Records -/

/-- A field of a record under construction. -/
structure Field (σ : Type) where
  name : String
  /-- Reads the value and stores it. -/
  read : σ → Reader σ
  /-- The field may be left off the end of the array form. -/
  optional : Bool

/-- A field that the given reader reads. -/
def Field.of {σ α : Type} (name : String) (read : Reader α) (store : σ → α → σ)
    (optional : Bool) : Field σ where
  name
  read := fun record cs => (read cs).map fun (value, rest) => (store record value, rest)
  optional

/-- One member of the object form: a known field at most once, any other value skipped. The names
of the fields met so far go along with the record. -/
def recordMember {σ : Type} (fields : List (Field σ)) (key : String) :
    List String × σ → Reader (List String × σ) := fun (seen, record) cs =>
  match fields.find? (·.name == key) with
  | none => do return ((seen, record), ← skipValue (← afterColon cs))
  | some field =>
    if seen.contains key then .error .mismatched
    else do
      let (record, cs) ← field.read record (← afterColon cs)
      return ((key :: seen, record), cs)

/-- The fields of the array form after its opening bracket. -/
def recordElements {σ : Type} : List (Field σ) → Bool → σ → Reader σ
  | [], _, record, cs => do return (record, ← endArray cs)
  | field :: fields, first, record, cs => do
    match ← nextElement first cs with
    | none =>
      if field.optional then recordElements fields first record cs else .error .mismatched
    | some cs =>
      let (record, cs) ← field.read record cs
      recordElements fields false record cs

/-- Reads a record in either form, starting from the record of absent fields. -/
def record {σ : Type} (fields : List (Field σ)) (absent : σ) : Reader σ := fun cs =>
  match skipBlanks cs with
  | '[' :: rest => recordElements fields true absent rest
  | '{' :: rest => do
    let ((_, record), rest) ← members (recordMember fields) (rest.length + 1) true ([], absent) rest
    return (record, rest)
  | cs => .error (wrongKind cs)

/-! ## Tables of strings -/

/-- Reads an object whose values are strings, in the order of the text. -/
def textTable : Reader (List (String × String)) := fun cs =>
  match skipBlanks cs with
  | '{' :: rest =>
    members (fun key table cs => do
      let (value, cs) ← text (← afterColon cs)
      return (table ++ [(key, value)], cs)) (rest.length + 1) true [] rest
  | cs => .error (wrongKind cs)

/-! ## Documents -/

/-- Reads a document, which holds one value and nothing else. -/
def document {α : Type} (read : Reader α) (source : String) : Except Fault α := do
  let (value, rest) ← read source.toList
  match skipBlanks rest with
  | [] => return value
  | _ => .error .malformed

end Json

end SourceMacros
