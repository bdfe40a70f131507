-- File trees: files, folders and links under one root, seen from a working folder.
--
-- A node is found by its key, the names on the way down from the root. Every node but the root
-- lies in a folder of the tree. Links are followed while a path is looked up, never by a walk.
import SourceMacros.Error
import SourceMacros.Sorting

namespace SourceMacros

/-- The names on the way from the root to a node. -/
abbrev Key := List String

inductive Node where
  | file (content : ByteArray)
  | folder
  /-- A symbolic link and the path it holds. -/
  | link (target : Path)

namespace Node

def isFolder : Node → Bool
  | folder => true
  | _ => false

/-- Both nodes are of the same kind and hold the same. -/
def same : Node → Node → Bool
  | file a, file b => a.beq b
  | folder, folder => true
  | link p, link q => p = q
  | _, _ => false

instance : BEq Node := ⟨same⟩

end Node

structure FileTree where
  /-- The nodes by key. The root is always there and is left out. -/
  nodes : List (Key × Node)
  /-- The folder that relative paths start from. -/
  working : Key

/-- What a walk meets. -/
inductive Visit where
  /-- A node, its path, and the names on the way to it from where the walk started. -/
  | entry (path : Path) (names : Key) (node : Node)
  /-- A place the walk cannot go into. -/
  | refused (path : Path) (cause : IoCause)

/-- Where a path leads. -/
inductive Found where
  | node (key : Key) (node : Node)
  /-- Nothing is there, but the folder that would hold it exists. -/
  | missing (key : Key)

/-- What the last name of a path is looked up for. Links before it are always followed. -/
inductive Purpose where
  /-- To reach what is there: a link is followed. -/
  | reach
  /-- To look at what is there: a link stands for itself, unless a slash comes after it. -/
  | inspect
  /-- To fill a file: a link is followed, and a slash after the name asks for a folder instead. -/
  | fill
  /-- To find the canonical path: a link is followed, and no canonical path met on the way may be
  too long. -/
  | identify
  deriving DecidableEq, Repr

namespace FileTree

/-! ## Nodes -/

/-- The node at a key. -/
def get? (t : FileTree) (key : Key) : Option Node :=
  if key = [] then some .folder else (t.nodes.find? (·.1 = key)).map Prod.snd

/-- The tree with a node at a key, in place of any other. -/
def set (t : FileTree) (key : Key) (node : Node) : FileTree :=
  { t with nodes := (key, node) :: t.nodes.filter (·.1 ≠ key) }

/-- The tree without a node and all that lies below it. -/
def erase (t : FileTree) (key : Key) : FileTree :=
  { t with nodes := t.nodes.filter (!key.isPrefixOf ·.1) }

/-- Keys in the order of a walk: names decide from the root down, and a folder comes before what
it holds. -/
def keyLe : Key → Key → Bool
  | [], _ => true
  | _ :: _, [] => false
  | a :: as, b :: bs => a < b || (a == b && keyLe as bs)

/-- Everything below a key in the order of a walk, each with the names on the way from there. -/
def below (t : FileTree) (key : Key) : List (Key × Node) :=
  let inside := t.nodes.filter fun (k, _) => key.isPrefixOf k && k != key
  Sorting.sort (fun a b => keyLe a.1 b.1)
    (inside.reverse.map fun (k, node) => (k.drop key.length, node))

/-! ## Looking up paths -/

/-- The links that one lookup may follow. -/
def linkLimit : Nat := 40

/-- The longest name, in bytes. -/
def nameLimit : Nat := 255

/-- The least length, in bytes, at which a path is too long. -/
def pathLimit : Nat := 4096

/-- The path of a key from the root. -/
def keyPath (key : Key) : Path := Path.ofPieces ("" :: (if key.isEmpty then [""] else key))

/-- The bytes of the path of a key other than the root. -/
def keyLength (key : Key) : Nat := key.foldr (fun name n => name.utf8ByteSize + 1 + n) 0

/-- Only slashes are left, and at least one. -/
def isTrailing (rest : List String) : Bool := !rest.isEmpty && rest.all (· == "")

/-- Goes down from a folder, piece by piece. `jump` goes on behind a link. -/
def descend (t : FileTree) (purpose : Purpose) (jump : Key → List String → Except IoCause Found) :
    Key → List String → Except IoCause Found
  | here, [] => .ok (.node here .folder)
  | here, piece :: rest =>
    if Path.isIdle piece then descend t purpose jump here rest
    else if piece == ".." then descend t purpose jump here.dropLast rest
    else if purpose = .fill ∧ isTrailing rest then .error .isDirectory
    else if nameLimit < piece.utf8ByteSize then .error .nameTooLong
    else if purpose = .identify ∧ pathLimit ≤ keyLength (here ++ [piece]) then
      .error .nameTooLong
    else
      let key := here ++ [piece]
      match t.get? key with
      | some .folder => descend t purpose jump key rest
      | some (.file content) =>
        if rest.isEmpty then .ok (.node key (.file content)) else .error .notDirectory
      | some (.link target) =>
        if rest.isEmpty ∧ purpose = .inspect then .ok (.node key (.link target))
        else jump (if target.isAbsolute then [] else here) (target.pieces ++ rest)
      | none => if rest.all (· == "") then .ok (.missing key) else .error .notFound

/-- Goes down from a folder, following at most so many links. -/
def follow (t : FileTree) (purpose : Purpose) : Nat → Key → List String → Except IoCause Found
  | 0 => descend t purpose fun _ _ => .error .tooManyLinks
  | links + 1 => descend t purpose (follow t purpose links)

/-- The path holds a zero byte, so no operation takes it. -/
def hasNul (path : Path) : Bool :=
  path.text.toByteArray.foldl (fun found byte => found || byte == 0) false

/-- The path is too long to be opened. -/
def isTooLong (path : Path) : Bool := pathLimit ≤ path.text.utf8ByteSize

/-- Looks up a path of any length. -/
def lookup (t : FileTree) (path : Path) (purpose : Purpose) : Except IoCause Found :=
  if path.text == "" then .error .notFound
  else if hasNul path then .error .nulInName
  else t.follow purpose linkLimit (if path.isAbsolute then [] else t.working) path.pieces

/-- Looks up a path. -/
def find (t : FileTree) (path : Path) (purpose : Purpose) : Except IoCause Found :=
  if isTooLong path then .error (if hasNul path then .nulInName else .nameTooLong)
  else t.lookup path purpose

/-- Looks up the place that a path names, where something is to be put. A link there stands for
itself, whether a slash comes after it or not. -/
def place (t : FileTree) (path : Path) : Except IoCause Found :=
  if isTooLong path then .error (if hasNul path then .nulInName else .nameTooLong)
  else t.lookup path.trimSlashes .inspect

/-- The node that a path leads to. -/
def node? (t : FileTree) (path : Path) : Option Node :=
  match t.find path .reach with
  | .ok (.node _ node) => some node
  | _ => none

/-- The path leads to a file. -/
def isFile (t : FileTree) (path : Path) : Bool :=
  match t.node? path with
  | some (.file _) => true
  | _ => false

/-- The path leads to a folder. -/
def isFolder (t : FileTree) (path : Path) : Bool :=
  match t.node? path with
  | some .folder => true
  | _ => false

/-- The one path of a node that holds no link. It is found step by step, so the path it is looked
up by may be of any length. -/
def canonical? (t : FileTree) (path : Path) : Option Path :=
  match t.lookup path .identify with
  | .ok (.node key _) => some (keyPath key)
  | _ => none

/-- The canonical path of a node, or the path itself where none exists. -/
def canonical (t : FileTree) (path : Path) : Path := (t.canonical? path).getD path

/-! ## Reading and writing -/

/-- The bytes of a file. -/
def read (t : FileTree) (path : Path) : Except IoCause ByteArray :=
  match t.find path .reach with
  | .ok (.node _ (.file content)) => .ok content
  | .ok (.node _ _) => .error .isDirectory
  | .ok (.missing _) => .error .notFound
  | .error cause => .error cause

/-- The text of a file. -/
def readText (t : FileTree) (path : Path) : Except IoCause String :=
  match t.read path with
  | .error cause => .error cause
  | .ok content =>
    match String.fromUTF8? content with
    | some text => .ok text
    | none => .error .notText

/-- The tree with the bytes in a file, which is made if need be. -/
def write (t : FileTree) (path : Path) (content : ByteArray) : Except IoCause FileTree :=
  match t.find path .fill with
  | .ok (.node key (.file _)) => .ok (t.set key (.file content))
  | .ok (.node _ _) => .error .isDirectory
  | .ok (.missing key) => .ok (t.set key (.file content))
  | .error cause => .error cause

/-- The tree with a new folder. -/
def makeFolder (t : FileTree) (path : Path) : Except IoCause FileTree :=
  match t.place path with
  | .ok (.missing key) => .ok (t.set key .folder)
  | .ok (.node _ _) => .error .alreadyExists
  | .error cause => .error cause

/-- A change of the tree that keeps what was done when it fails. -/
abbrev Change := EStateM IoCause FileTree

/-- Makes a folder, which must not exist. -/
def addFolder (path : Path) : Change Unit := fun t =>
  match t.makeFolder path with
  | .ok t => .ok () t
  | .error cause => .error cause t

/-- Makes a folder unless it is there. -/
def ensureFolder (path : Path) : Change Unit := fun t =>
  match addFolder path t with
  | .ok () t => .ok () t
  | .error cause t => if t.isFolder path then .ok () t else .error cause t

/-- Makes a folder and the folders it lies in, of which at most so many are missing. -/
def makeFoldersUpTo : Nat → Path → Change Unit
  | 0, _ => throw .notFound
  | levels + 1, path => fun t =>
    if path.text == "" then .ok () t
    else
      match addFolder path t with
      | .error .notFound t =>
        match path.parent? with
        | none => .error .notFound t
        | some parent => (do makeFoldersUpTo levels parent; ensureFolder path) t
      | .ok () t => .ok () t
      | .error cause t => if t.isFolder path then .ok () t else .error cause t

/-- Makes a folder and all the folders it lies in. -/
def makeFolders (path : Path) : Change Unit := makeFoldersUpTo (path.pieces.length + 1) path

/-- The tree with a new link, which must lead somewhere. A link is no folder, so no slash may come
after its name. -/
def makeLink (t : FileTree) (path target : Path) : Except IoCause FileTree :=
  if target.text == "" then .error .notFound
  else if hasNul target then .error .nulInName
  else if isTooLong target then .error .nameTooLong
  else
    match t.place path with
    | .error cause => .error cause
    | .ok (.missing key) =>
      if path.endsInSlash then .error .notFound else .ok (t.set key (.link target))
    | .ok (.node _ _) => .error .alreadyExists

/-- The tree with a file or link moved to another place. What it meets there goes, unless that is
a folder. A path that ends in no name names no place to move to. -/
def rename (t : FileTree) (source target : Path) : Except IoCause FileTree := do
  let found ← t.find source .inspect
  let goal ← t.place target
  if !target.endsInName then .error .busy
  else
    match found with
    | .missing _ => .error .notFound
    | .node key node =>
      if target.endsInSlash then .error .notDirectory
      else
        match goal with
        | .node _ .folder => .error .isDirectory
        | .node goal _ => if goal = key then return t else return (t.erase key).set goal node
        | .missing goal => return (t.erase key).set goal node

/-- The tree without a file or link. -/
def removeFile (t : FileTree) (path : Path) : Except IoCause FileTree := do
  match ← t.find path .inspect with
  | .missing _ => .error .notFound
  | .node _ .folder => .error .isDirectory
  | .node key _ => return t.erase key

/-! ## Walks -/

/-- What a walk from `path` meets at the given names below it. A folder whose path is too long is
met, but nothing in it. -/
def visit (path : Path) (names : Key) (node : Node) : List Visit :=
  let here := path.join (Path.ofPieces names)
  if names.dropLast ≠ [] ∧ isTooLong (path.join (Path.ofPieces names.dropLast)) then []
  else if node.isFolder && isTooLong here then [.entry here names node, .refused here .nameTooLong]
  else [.entry here names node]

/-- A walk over a path and everything below it, in order. A link at the path itself is followed
to a folder; links below are not. -/
def walk (t : FileTree) (path : Path) : List Visit :=
  let inside (key : Key) := (t.below key).flatMap fun (names, node) => visit path names node
  match t.find path .inspect with
  | .error cause => [.refused path cause]
  | .ok (.missing _) => [.refused path .notFound]
  | .ok (.node key .folder) => .entry path [] .folder :: inside key
  | .ok (.node _ (.link target)) =>
    match t.find path .reach with
    | .ok (.node key .folder) => .entry path [] (.link target) :: inside key
    | .ok (.node _ _) => [.entry path [] (.link target)]
    | .ok (.missing _) => [.refused path .notFound]
    | .error cause => [.refused path cause]
  | .ok (.node _ node) => [.entry path [] node]

/-- The names in a folder, in order. -/
def list (t : FileTree) (path : Path) : Except IoCause (List String) :=
  match t.find path .reach with
  | .ok (.node key .folder) =>
    .ok ((t.below key).filterMap fun (names, _) =>
      match names with
      | [name] => some name
      | _ => none)
  | .ok (.node _ _) => .error .notDirectory
  | .ok (.missing _) => .error .notFound
  | .error cause => .error cause

/-! ## Laws of the nodes -/

@[simp]
theorem get?_set_self (t : FileTree) {key : Key} (node : Node) (h : key ≠ []) :
    (t.set key node).get? key = some node := by
  simp [get?, set, h]

theorem get?_set_of_ne (t : FileTree) {key other : Key} (node : Node) (h : key ≠ other) :
    (t.set key node).get? other = t.get? other := by
  simp only [get?, set, List.find?_cons, h, decide_false, List.find?_filter]
  split
  · rfl
  · congr 1
    apply congrArg (fun p => List.find? p t.nodes)
    funext entry
    by_cases hk : entry.1 = other
    · simp [hk, Ne.symm h]
    · simp [hk]

end FileTree

end SourceMacros
