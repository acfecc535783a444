import TermShell.Arena

/-!
# Trees

A tree is an arena of nodes with two numbers picked out: the root, and the current
directory, from which relative paths start.

Nothing in the type says that the nodes form a tree. A tree may be loaded in any state,
and all operations are defined on all of them: a link that leads nowhere is treated as
if it led to the root. `TermShell.Tree.Integrity` says what it means to be intact.
-/

namespace TermShell

/-- What can be wrong with the shape of a tree. -/
inductive Flaw where
  /-- The number of nodes marked as root is not one, or the one is not the root. -/
  | roots (count : Nat)
  /-- A node other than the root has no parent. -/
  | noParent (id : Nat)
  /-- A node is missing from the children of its parent. -/
  | unlisted (id : Nat)
  /-- A node is met twice on the way through the children. -/
  | reachedTwice (id : Nat)
  /-- Some nodes are not met on the way through the children. -/
  | unreached (met total : Nat)
  deriving DecidableEq

/-- Why a tree refuses an operation, or fails the check of its shape. -/
inductive TreeError where
  /-- The number stands for nothing. -/
  | notFound (id : Nat)
  | notADirectory (id : Nat)
  | notAFile (id : Nat)
  /-- The root stays where it is. -/
  | rootRemoval
  | corrupted (flaw : Flaw)
  deriving DecidableEq

/-- A flaw in words. -/
def Flaw.message : Flaw → String
  | .roots count => "expected one root, found " ++ Text.decimal count
  | .noParent id => Node.label id ++ " has no parent"
  | .unlisted id => Node.label id ++ " is not listed by its parent"
  | .reachedTwice id => Node.label id ++ " reached twice"
  | .unreached met total => Text.decimal met ++ " of " ++ Text.decimal total ++ " entities reachable"

/-- A refusal in words. -/
def TreeError.message : TreeError → String
  | .notFound id => "Not found: " ++ Node.label id
  | .notADirectory id => "Not a directory: " ++ Node.label id
  | .notAFile id => "Not a file: " ++ Node.label id
  | .rootRemoval => "The root directory cannot be removed"
  | .corrupted flaw => "Corrupted tree: " ++ flaw.message

/-- Nodes, with a root and a current directory. -/
structure Tree where
  root : Nat
  current : Nat
  arena : Arena
  deriving DecidableEq

namespace Tree

/-- The tree that has nothing but a root. -/
def bare (permissions : PermissionSet) : Tree :=
  ⟨0, 0, Arena.empty.put (Node.root 0 permissions)⟩

/-- The node of this number. -/
def get? (t : Tree) (id : Nat) : Option Node := t.arena.get? id

/-- How many nodes the tree has, the root included. -/
def size (t : Tree) : Nat := t.arena.size

/-- Is there nothing but the root? -/
def isBare (t : Tree) : Bool := t.size ≤ 1

/-- The root. Should its number stand for nothing, an empty directory that allows nothing
takes its place. -/
def rootNode (t : Tree) : Node := (t.get? t.root).getD (Node.root t.root .none)

/-- The directory of this number. -/
def directory? (t : Tree) (id : Nat) : Option Node := (t.get? id).filter Node.isDirectory

/-- The current directory, or the root if the number of the current directory no longer
stands for one. -/
def currentDirectory (t : Tree) : Node := (t.directory? t.current).getD t.rootNode

/-- The directory above a node, or the root if there is none. -/
def parentOf (t : Tree) (n : Node) : Node := (n.parent.bind t.directory?).getD t.rootNode

/-- The nodes that a directory lists, in order; numbers that stand for nothing are
passed over. -/
def childrenOf (t : Tree) (n : Node) : List Node := n.children.filterMap t.get?

end Tree

end TermShell
