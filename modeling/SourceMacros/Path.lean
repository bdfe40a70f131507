-- Paths: texts whose pieces are divided by slashes. Two paths are the same when they name the
-- same components, whatever the spelling; the spelling is kept, because messages show it.
import SourceMacros.Text.Pieces

namespace SourceMacros

structure Path where
  text : String
  deriving DecidableEq, Repr, Inhabited

/-- What a piece of a path stands for. -/
inductive Component where
  | root
  /-- A leading `.` of a relative path. -/
  | here
  /-- The piece `..`. -/
  | up
  | normal (name : String)
  deriving DecidableEq, Repr

namespace Path

def isAbsolute (p : Path) : Bool := p.text.startsWith '/'

/-- A slash comes after everything else. -/
def endsInSlash (p : Path) : Bool := p.text.endsWith '/'

/-- The pieces between the slashes, empty ones included. -/
def pieces (p : Path) : List String := Pieces.splitText '/' p.text

/-- A piece that names nothing. -/
def isIdle (piece : String) : Bool := piece == "" || piece == "."

def ofPieces (pieces : List String) : Path := ⟨Pieces.joinText '/' pieces⟩

/-- Drops the idle pieces at the end. -/
def trimEnd (pieces : List String) : List String := (pieces.reverse.dropWhile isIdle).reverse

/-- The pieces that no trimming may take, and the others. The first stand for the root or for a
leading `.`. -/
def anchored (p : Path) : List String × List String :=
  match p.pieces with
  | first :: rest => if p.isAbsolute || first == "." then ([first], rest) else ([], first :: rest)
  | [] => ([], [])

/-- The component of a piece that names something. -/
def componentOf (piece : String) : Component := if piece == ".." then .up else .normal piece

/-- The components of a path. -/
def components (p : Path) : List Component :=
  let (anchor, body) := p.anchored
  let start := if p.isAbsolute then [Component.root] else if anchor.isEmpty then [] else [.here]
  start ++ (body.filter (!isIdle ·)).map componentOf

/-- The last piece that names something, when that is no way up. -/
def lastName? (body : List String) : Option String :=
  (body.reverse.dropWhile isIdle).head?.filter (· != "..")

/-- The last component, when it is a name. -/
def fileName? (p : Path) : Option String := lastName? p.anchored.2

/-- The path without its last component. A root and the empty path have no parent. -/
def parent? (p : Path) : Option Path :=
  let (anchor, body) := p.anchored
  let body := trimEnd body
  if body.isEmpty then
    if p.isAbsolute || anchor.isEmpty then none else some ⟨""⟩
  else
    let left := trimEnd body.dropLast
    if p.isAbsolute && left.isEmpty then some ⟨"/"⟩ else some (ofPieces (anchor ++ left))

/-- A file name cut at its last point into stem and extension. A point at the front cuts nothing. -/
def cutName (name : String) : String × Option String :=
  if name == ".." then (name, none)
  else
    let cs := name.toList
    let after := cs.reverse.takeWhile (· != '.')
    let before := cs.take (cs.length - after.length - 1)
    if after.length == cs.length || before.isEmpty then (name, none)
    else (String.ofList before, some (String.ofList after.reverse))

/-- What stands after the last point of the file name. -/
def extension? (p : Path) : Option String := p.fileName?.bind fun name => (cutName name).2

/-- The path without the letters of its extension, counted from its end. The point before them
stays, so a name of two points and an extension is left as `..`, which is no name. -/
def dropExtension (p : Path) : Path :=
  match p.extension? with
  | none => p
  | some extension => ⟨String.ofList (p.text.toList.take (p.text.length - extension.length))⟩

/-- The path with an extension behind the stem of its file name; an empty one is left off. A path
that ends in no name stays as it is. -/
def putExtension (p : Path) (extension : String) : Path :=
  let (anchor, body) := p.anchored
  match lastName? body with
  | none => p
  | some name =>
    let stem := (cutName name).1
    let last := if extension == "" then stem else stem ++ "." ++ extension
    ofPieces (anchor ++ (trimEnd body).dropLast ++ [last])

/-- The path with another extension in place of its own. -/
def withExtension (p : Path) (extension : String) : Path := p.dropExtension.putExtension extension

/-- The second path seen from the first. An absolute second path stands alone. -/
def join (p : Path) (q : Path) : Path :=
  if q.isAbsolute || p.text == "" then q
  else if p.endsInSlash then ⟨p.text ++ q.text⟩
  else ⟨p.text ++ "/" ++ q.text⟩

/-- The path with another file name. -/
def withFileName (p : Path) (name : String) : Path :=
  match p.fileName?, p.parent? with
  | some _, some dir => dir.join ⟨name⟩
  | _, _ => p.join ⟨name⟩

/-- The pieces without the empty ones at the end. -/
def dropSlashes (pieces : List String) : List String :=
  (pieces.reverse.dropWhile (· == "")).reverse

/-- The path without the slashes at its end. A root stays. -/
def trimSlashes (p : Path) : Path :=
  match dropSlashes p.pieces with
  | [] => p
  | pieces => ofPieces pieces

/-- The last piece, slashes apart, is a name: neither `.` nor `..`, nor missing as in a root. -/
def endsInName (p : Path) : Bool :=
  match (dropSlashes p.pieces).getLast? with
  | none => false
  | some piece => piece != "." && piece != ".."

/-- Both paths name the same components. -/
def same (p q : Path) : Bool := p.components == q.components

end Path

end SourceMacros
