-- The hash record: the digest of each source as it was when it was last expanded. It may be kept
-- in a file between runs; a file that cannot be read counts as an empty record.
import SourceMacros.FileTree
import SourceMacros.Json.Document
import SourceMacros.Text.Quoted

namespace SourceMacros

/-- Digests by path, in the order of the paths. -/
abbrev Digests := List (String × String)

namespace Digests

def get? (d : Digests) (key : String) : Option String := (d.find? (·.1 == key)).map Prod.snd

/-- The digests with one more, in place of any other of its path. -/
def insert (d : Digests) (key digest : String) : Digests :=
  match d with
  | [] => [(key, digest)]
  | (k, old) :: rest =>
    if key < k then (key, digest) :: (k, old) :: rest
    else if key = k then (key, digest) :: rest
    else (k, old) :: insert rest key digest

/-- The digests of a table in which a later line wins over an earlier one. -/
def ofTable (table : List (String × String)) : Digests :=
  table.foldl (fun d (key, digest) => d.insert key digest) []

/-- One character in a JSON string. -/
def escape (c : Char) : List Char :=
  match c with
  | '"' => ['\\', '"']
  | '\\' => ['\\', '\\']
  | '\x08' => ['\\', 'b']
  | '\x0c' => ['\\', 'f']
  | '\n' => ['\\', 'n']
  | '\r' => ['\\', 'r']
  | '\t' => ['\\', 't']
  | c =>
    if c.toNat < 0x20 then
      ['\\', 'u', '0', '0', Nat.digitChar (c.toNat / 16), Nat.digitChar (c.toNat % 16)]
    else [c]

/-- A JSON string. -/
def quote (text : String) : String :=
  "\"" ++ String.ofList (text.toList.flatMap escape) ++ "\""

/-- The digests as a JSON object, one path a line. -/
def render (d : Digests) : String :=
  if d.isEmpty then "\x7b\x7d"
  else
    let lines := d.map fun (key, digest) => "  " ++ quote key ++ ": " ++ quote digest
    "\x7b\n" ++ ",\n".intercalate lines ++ "\n\x7d"

/-- The digests written in a JSON object. -/
def parse? (text : String) : Option Digests :=
  match Json.document Json.textTable text with
  | .ok table => some (ofTable table)
  | .error _ => none

end Digests

structure HashRecord where
  /-- The file that keeps the record, if one does. -/
  path : Option Path := none
  digests : Digests := []
  /-- Something changed since the record was read or saved. -/
  dirty : Bool := false

namespace HashRecord

/-- The record kept in a file. -/
def load (tree : FileTree) (path : Path) : HashRecord :=
  let digests := match tree.readText path with
    | .ok text => (Digests.parse? text).getD []
    | .error _ => []
  { path := some path, digests }

/-- What a file is recorded under: its canonical path, so that two names of a file share one
digest. -/
def key (tree : FileTree) (file : Path) : String := (tree.canonical file).text

/-- The recorded digest of a file. -/
def get? (r : HashRecord) (tree : FileTree) (file : Path) : Option String :=
  r.digests.get? (key tree file)

/-- The file was recorded with exactly this digest. -/
def isUnchanged (r : HashRecord) (tree : FileTree) (file : Path) (digest : String) : Bool :=
  r.get? tree file == some digest

/-- The record with a digest for a file. -/
def update (r : HashRecord) (tree : FileTree) (file : Path) (digest : String) : HashRecord :=
  { r with
    digests := r.digests.insert (key tree file) digest
    dirty := r.dirty || !r.isUnchanged tree file digest }

/-- Makes the folder of a file, if its path names one. -/
def prepareFolder (path : Path) : EStateM Error FileTree Unit := fun tree =>
  match path.parent? with
  | none => .ok () tree
  | some parent =>
    if parent.text == "" then .ok () tree
    else
      match FileTree.makeFolders parent tree with
      | .ok () tree => .ok () tree
      | .error cause tree => .error (.io parent cause) tree

/-- Saves the record. Nothing is written without a file to keep it or without a change, and a
record that could not be written stays as it was. -/
def save (r : HashRecord) : EStateM Error FileTree HashRecord := fun tree =>
  match r.path with
  | none => .ok r tree
  | some path =>
    if !r.dirty then .ok r tree
    else
      match prepareFolder path tree with
      | .error error tree => .error error tree
      | .ok () tree =>
        match tree.write path r.digests.render.toUTF8 with
        | .ok tree => .ok { r with dirty := false } tree
        | .error cause => .error (.io path cause) tree

end HashRecord

end SourceMacros
