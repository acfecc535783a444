import TermShell.FileName
import TermShell.Permission
import TermShell.Text.Number

/-!
# Nodes of the tree

A node is a file or a directory. Both have a number, a name, a link to the directory
above, a permission set and a mark that only the root carries; a file has an extension
and contents besides, a directory the numbers of its children in order.

Nodes refer to each other by number only. Whether the numbers that a node mentions stand
for anything is a question about a whole tree (`TermShell.Tree.Integrity`).
-/

namespace TermShell

/-- What sets files and directories apart. -/
inductive Body where
  /-- A file has an optional extension and a text. -/
  | file (extension : Option String) (contents : String)
  /-- A directory has children, by number and in order. -/
  | directory (children : List Nat)
  deriving DecidableEq

/-- A file or directory. -/
structure Node where
  id : Nat
  /-- The name, for a file without its extension. -/
  name : String
  /-- The directory above. -/
  parent : Option Nat
  permissions : PermissionSet
  /-- The mark of the root. -/
  isRoot : Bool
  body : Body
  deriving DecidableEq

namespace Node

/-- How messages show the number of a node. -/
def label (id : Nat) : String := "Entity(#" ++ Text.decimal id ++ ")"

/-- A file below the directory `parent`. -/
def file (id parent : Nat) (name : String) (extension : Option String) (contents : String)
    (permissions : PermissionSet) : Node :=
  ⟨id, name, some parent, permissions, false, .file extension contents⟩

/-- A directory without children below the directory `parent`. -/
def directory (id parent : Nat) (name : String) (permissions : PermissionSet) : Node :=
  ⟨id, name, some parent, permissions, false, .directory []⟩

/-- A root without children. -/
def root (id : Nat) (permissions : PermissionSet) : Node :=
  ⟨id, "/", none, permissions, true, .directory []⟩

/-- Is the node a directory? -/
def isDirectory (n : Node) : Bool :=
  match n.body with
  | .directory _ => true
  | .file _ _ => false

/-- Is the node a file? -/
def isFile (n : Node) : Bool := !n.isDirectory

/-- The extension of a file that has one. -/
def extension (n : Node) : Option String :=
  match n.body with
  | .file extension _ => extension
  | .directory _ => none

/-- The contents of a file. -/
def contents? (n : Node) : Option String :=
  match n.body with
  | .file _ contents => some contents
  | .directory _ => none

/-- The contents of a file, and the empty text for a directory. -/
def text (n : Node) : String := n.contents?.getD ""

/-- The children of a directory; a file has none. -/
def children (n : Node) : List Nat :=
  match n.body with
  | .file _ _ => []
  | .directory children => children

/-- The name with the extension of a file. -/
def fullName (n : Node) : String := FileName.join n.name n.extension

/-- Is `name` the full name of the node? -/
def hasFullName (n : Node) (name : String) : Bool := FileName.isJoin n.name n.extension name

/-- Does the node answer to `name`? It does to its full name and to its bare one. -/
def answersTo (n : Node) (name : String) : Bool := n.hasFullName name || n.name == name

/-- The node with other children; a file stays as it is. -/
def withChildren (n : Node) (children : List Nat) : Node :=
  match n.body with
  | .file _ _ => n
  | .directory _ => { n with body := .directory children }

/-- The node with other contents; a directory stays as it is. -/
def withContents (n : Node) (contents : String) : Node :=
  match n.body with
  | .file extension _ => { n with body := .file extension contents }
  | .directory _ => n

/-! ## What the two changes leave alone -/

section withChildren

variable (n : Node) (cs : List Nat)

@[simp] theorem id_withChildren : (n.withChildren cs).id = n.id := by
  unfold withChildren; split <;> rfl

@[simp] theorem name_withChildren : (n.withChildren cs).name = n.name := by
  unfold withChildren; split <;> rfl

@[simp] theorem parent_withChildren : (n.withChildren cs).parent = n.parent := by
  unfold withChildren; split <;> rfl

@[simp] theorem permissions_withChildren : (n.withChildren cs).permissions = n.permissions := by
  unfold withChildren; split <;> rfl

@[simp] theorem isRoot_withChildren : (n.withChildren cs).isRoot = n.isRoot := by
  unfold withChildren; split <;> rfl

@[simp] theorem isDirectory_withChildren : (n.withChildren cs).isDirectory = n.isDirectory := by
  rcases n with ⟨_, _, _, _, _, _ | _⟩ <;> rfl

@[simp] theorem withChildren_withChildren (cs' : List Nat) :
    (n.withChildren cs).withChildren cs' = n.withChildren cs' := by
  rcases n with ⟨_, _, _, _, _, _ | _⟩ <;> rfl

@[simp] theorem withChildren_children : n.withChildren n.children = n := by
  rcases n with ⟨_, _, _, _, _, _ | _⟩ <;> rfl

theorem children_withChildren_sublist : (n.withChildren cs).children.Sublist cs := by
  rcases n with ⟨_, _, _, _, _, _ | _⟩
  · exact List.nil_sublist _
  · exact List.Sublist.refl _

variable {n}

/-- A directory takes the children it is given. -/
theorem children_withChildren (h : n.isDirectory = true) : (n.withChildren cs).children = cs := by
  rcases n with ⟨_, _, _, _, _, _ | _⟩
  · exact absurd h (by simp [isDirectory])
  · rfl

end withChildren

section withContents

variable (n : Node) (s : String)

@[simp] theorem id_withContents : (n.withContents s).id = n.id := by
  unfold withContents; split <;> rfl

@[simp] theorem parent_withContents : (n.withContents s).parent = n.parent := by
  unfold withContents; split <;> rfl

@[simp] theorem permissions_withContents : (n.withContents s).permissions = n.permissions := by
  unfold withContents; split <;> rfl

@[simp] theorem isRoot_withContents : (n.withContents s).isRoot = n.isRoot := by
  unfold withContents; split <;> rfl

@[simp] theorem isDirectory_withContents : (n.withContents s).isDirectory = n.isDirectory := by
  rcases n with ⟨_, _, _, _, _, _ | _⟩ <;> rfl

@[simp] theorem children_withContents : (n.withContents s).children = n.children := by
  rcases n with ⟨_, _, _, _, _, _ | _⟩ <;> rfl

@[simp] theorem withContents_withContents (s' : String) :
    (n.withContents s).withContents s' = n.withContents s' := by
  rcases n with ⟨_, _, _, _, _, _ | _⟩ <;> rfl

end withContents

theorem text_withContents {n : Node} (h : n.isFile = true) (s : String) :
    (n.withContents s).text = s := by
  rcases n with ⟨_, _, _, _, _, _ | _⟩
  · rfl
  · exact absurd h (by simp [isFile, isDirectory])

/-- Only a directory has children. -/
theorem isDirectory_of_mem_children {n : Node} {c : Nat} (h : c ∈ n.children) :
    n.isDirectory = true := by
  rcases n with ⟨_, _, _, _, _, _ | _⟩
  · exact absurd h (by simp [children])
  · rfl

theorem children_of_isFile {n : Node} (h : n.isFile = true) : n.children = [] := by
  rcases n with ⟨_, _, _, _, _, _ | _⟩
  · rfl
  · exact absurd h (by simp [isFile, isDirectory])

end Node

end TermShell
