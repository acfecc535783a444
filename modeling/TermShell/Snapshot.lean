import TermShell.Calendar.Format
import TermShell.Json
import TermShell.Tree.Address

/-!
# Snapshots

A snapshot is the state of the shell as it is saved: the current directory, the colour and
the whole tree. The time is not part of it. It is read off the clock of the machine when the
snapshot is written, and that is not the clock by which the shell tells the time.

Nothing of the tree is lost in writing, and `Tree.ofJson?` reads the tree back. Nodes refer to
each other by references, texts of a `#` and the number. An arena is an object that has the
nodes as its fields, each under its reference, so that their order means nothing.
-/

namespace TermShell

/-- The state of the shell at some time. -/
structure Snapshot where
  /-- The path of the current directory. -/
  currentDirectory : String
  /-- The name of the colour that has been chosen. -/
  color : Option String
  tree : Tree
  deriving DecidableEq

/-! ## Writing -/

/-- The reference to a number. -/
def Node.reference (id : Nat) : String := "#" ++ Text.decimal id

/-- The written form of a reference. -/
def Json.reference (id : Nat) : Json := .text (Node.reference id)

/-- The written form of permissions, a number. -/
def PermissionSet.toJson (s : PermissionSet) : Json := .number s.code

/-- The written form of what sets a file or a directory apart. -/
def Body.toJson : Body → Json
  | .file extension contents =>
    .object [("File", .object [
      ("extension", Json.optional Json.text extension),
      ("contents", .text contents)])]
  | .directory children =>
    .object [("Directory", .object [("children", .list (children.map Json.reference))])]

/-- The written form of a node. -/
def Node.toJson (n : Node) : Json :=
  .object [
    ("id", Json.reference n.id),
    ("name", .text n.name),
    ("parent_id", Json.optional Json.reference n.parent),
    ("permissions", n.permissions.toJson),
    ("is_root", .bool n.isRoot),
    ("kind", n.body.toJson)]

/-- The written form of an arena. -/
def Arena.toJson (a : Arena) : Json :=
  .object (a.nodes.map fun n => (Node.reference n.id, n.toJson))

/-- The written form of a tree. -/
def Tree.toJson (t : Tree) : Json :=
  .object [
    ("root_id", Json.reference t.root),
    ("current_directory_id", Json.reference t.current),
    ("entities", t.arena.toJson)]

/-- The written form of a snapshot that is saved at some time. -/
def Snapshot.toJson (s : Snapshot) (savedAt : Calendar.Instant) : Json :=
  .object [
    ("saved_at", .text savedAt.rfc3339),
    ("current_directory", .text s.currentDirectory),
    ("color", Json.optional Json.text s.color),
    ("file_system", s.tree.toJson)]

/-! ## Reading -/

/-- Reads a reference. -/
def Json.reference? (j : Json) : Option Nat :=
  j.text?.bind fun s =>
    match s.toList with
    | '#' :: d :: ds =>
      if (d :: ds).all Char.isDigit then some (Nat.ofDigitChars 10 (d :: ds) 0) else none
    | _ => none

/-- Reads permissions. -/
def PermissionSet.ofJson? (j : Json) : Option PermissionSet :=
  j.number?.bind PermissionSet.ofCode?

/-- Reads what sets a file or a directory apart: an object of one field, whose name says which
of them it is. -/
def Body.ofJson? : Json → Option Body
  | .object [(kind, j)] =>
    if kind = "File" then do
      let extension ← j.readOptional? "extension" Json.text?
      let contents ← j.read? "contents" Json.text?
      return .file extension contents
    else if kind = "Directory" then
      (j.read? "children" (Json.list? Json.reference?)).map .directory
    else none
  | _ => none

/-- Reads a node. -/
def Node.ofJson? (j : Json) : Option Node := do
  let id ← j.read? "id" Json.reference?
  let name ← j.read? "name" Json.text?
  let parent ← j.readOptional? "parent_id" Json.reference?
  let permissions ← j.read? "permissions" PermissionSet.ofJson?
  let isRoot ← j.read? "is_root" Json.bool?
  let body ← j.read? "kind" Body.ofJson?
  return ⟨id, name, parent, permissions, isRoot, body⟩

/-- Reads a node that is a field of its arena, under its own reference. -/
def Node.ofField? (field : String × Json) : Option Node :=
  (Node.ofJson? field.2).filter fun n => field.1 = Node.reference n.id

/-- Reads an arena. -/
def Arena.ofJson? (j : Json) : Option Arena := (j.fields? Node.ofField?).map Arena.ofList

/-- Reads a tree. -/
def Tree.ofJson? (j : Json) : Option Tree := do
  let root ← j.read? "root_id" Json.reference?
  let current ← j.read? "current_directory_id" Json.reference?
  let arena ← j.read? "entities" Arena.ofJson?
  return ⟨root, current, arena⟩

end TermShell
