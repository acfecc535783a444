import TermShell.Layout
import TermShell.Listing
import TermShell.Tree.Edit
import TermShell.Tree.Lookup
import TermShell.Tree.Address

/-!
# Volumes

A volume is a tree together with the supply of numbers for new nodes. The supply stays
above every number that has ever been in the tree, so a number is not used twice, even if
its node is gone.

On a volume things are done relative to the current directory: files and directories are
made there and deleted from there. None of this asks for permission, except that a
listing is shown only to a user who may read the directory.
-/

namespace TermShell

/-- Why a volume refuses an operation. -/
inductive VolumeError where
  /-- The tree refuses. -/
  | tree (cause : TreeError)
  /-- Nothing of the wanted kind answers to the name. -/
  | notFound (name : String)
  /-- The path does not lead to a directory. -/
  | notADirectory (path : String)
  /-- The user may not read the directory with this path. -/
  | insufficientPermission (path : String)
  | emptyName
  | invalidName (name : String)
  deriving DecidableEq

/-- A refusal in words. -/
def VolumeError.message : VolumeError → String
  | .tree cause => "Tree error: " ++ cause.message
  | .notFound name => "Not found: " ++ name
  | .notADirectory path => "Not a directory: " ++ path
  | .insufficientPermission path => "Insufficient permission: " ++ path
  | .emptyName => "Empty name"
  | .invalidName name => "Invalid name: " ++ name

/-- A tree, and the number that the next new node gets. -/
structure Volume where
  tree : Tree
  next : Nat
  /-- The numbers from `next` on are not in use. -/
  bound_le : tree.arena.bound ≤ next

namespace Volume

/-- The volume of a tree that has had no other nodes than those it has. -/
def ofTree (t : Tree) : Volume := ⟨t, t.arena.bound, Nat.le_refl _⟩

/-- A fresh system. -/
def standard : Volume := ofTree Layout.tree

/-- The volume after its tree has become `t`. -/
def withTree (v : Volume) (t : Tree) : Volume :=
  ⟨t, max v.next t.arena.bound, Nat.le_max_right _ _⟩

/-- The number of the next new node is not in use. -/
theorem get?_next (v : Volume) : v.tree.get? v.next = none :=
  Arena.get?_eq_none_of_bound_le v.bound_le

/-- Two volumes with the same tree and the same supply are equal. -/
theorem ext {v w : Volume} (ht : v.tree = w.tree) (hn : v.next = w.next) : v = w := by
  cases v
  cases w
  cases ht
  cases hn
  rfl

instance : DecidableEq Volume := fun v w =>
  if h : v.tree = w.tree ∧ v.next = w.next then isTrue (ext h.1 h.2)
  else isFalse fun e => h ⟨congrArg tree e, congrArg next e⟩

/-! ## Places -/

/-- The directory that a path typed by the user means. A path that leads nowhere from the
current directory is tried once more from the root, unless it says itself where it
starts. -/
def resolveDirectory (v : Volume) (path : String) : Option Node :=
  (v.tree.resolveDirectory path).or
    (match Path.classify path with
      | .relative _ => v.tree.findDirectory v.tree.rootNode path
      | _ => none)

/-- The file that a path means, seen from the current directory. -/
def resolveFile (v : Volume) (path : String) : Option Node :=
  v.tree.findFile v.tree.currentDirectory path

/-- The child of the current directory that answers to the name. -/
def find (v : Volume) (name : String) (wanted : Node → Bool) : Except VolumeError Node :=
  if name.isEmpty then .error .emptyName
  else match v.tree.findChild v.tree.currentDirectory name wanted with
    | some n => .ok n
    | none => .error (.notFound name)

/-- Does the current directory allow this? -/
def allows (v : Volume) (p : Permission) : Bool :=
  v.tree.currentDirectory.permissions.contains p

/-- Makes the directory of this number the current one; nothing happens if it is none. -/
def setCurrent (v : Volume) (id : Nat) : Volume :=
  match v.tree.setCurrent id with
  | some t => v.withTree t
  | none => v

/-- Makes the directory that the path means the current one; nothing happens if it means
none. -/
def setCurrentPath (v : Volume) (path : String) : Volume :=
  match v.resolveDirectory path with
  | some directory => v.setCurrent directory.id
  | none => v

/-! ## Changes -/

/-- The volume after a change of its tree. -/
def adopt (v : Volume) : Except TreeError Tree → Except VolumeError Volume
  | .ok t => .ok (v.withTree t)
  | .error e => .error (.tree e)

/-- Why the name is not for a new file or directory. -/
def nameFault? (name : String) : Option VolumeError :=
  if name.isEmpty then some .emptyName
  else if Path.isValidName name then none
  else some (.invalidName name)

/-- Makes an empty file in the current directory. Its number is `v.next`. -/
def createFile (v : Volume) (name : String) : Except VolumeError Volume :=
  match nameFault? name with
  | some e => .error e
  | none =>
    let parts := FileName.split name
    v.adopt (v.tree.insert v.tree.current
      (Node.file v.next v.tree.current parts.1 parts.2 "" .userDefault))

/-- Makes an empty directory in the current directory. Its number is `v.next`. -/
def createDirectory (v : Volume) (name : String) : Except VolumeError Volume :=
  match nameFault? name with
  | some e => .error e
  | none =>
    v.adopt (v.tree.insert v.tree.current
      (Node.directory v.next v.tree.current name .userDefault))

/-- Deletes a child of the current directory with all that is below it, and says whether
there was such a child. -/
def delete (v : Volume) (id : Nat) : Except VolumeError (Volume × Bool) :=
  match v.tree.remove v.tree.current id with
  | .ok (t, found) => .ok (v.withTree t, found)
  | .error e => .error (.tree e)

/-- Gives a file other contents. -/
def write (v : Volume) (id : Nat) (contents : String) : Except VolumeError Volume :=
  v.adopt (v.tree.write id contents)

/-- Gives a node another permission set. -/
def setPermissions (v : Volume) (id : Nat) (permissions : PermissionSet) :
    Except VolumeError Volume :=
  v.adopt (v.tree.setPermissions id permissions)

/-! ## Listings -/

/-- The directory to be listed: the one that the path means, or without a path the current
one. -/
def listed? (v : Volume) : Option String → Option Node
  | some path => v.resolveDirectory path
  | none => some v.tree.currentDirectory

/-- What a directory shows to the user. -/
def list (v : Volume) (path : Option String) : Except VolumeError Listing :=
  match v.listed? path with
  | none => .error (.notADirectory (path.getD ""))
  | some directory =>
    if directory.permissions.userReads then
      .ok ⟨v.tree.path directory, (v.tree.childrenOf directory).map Listing.Entry.ofNode⟩
    else .error (.insufficientPermission (v.tree.path directory))

end Volume

end TermShell
