import TermShell.Tree.Basic

/-!
# Is it a tree?

The check goes through three questions in turn and stops at the first fault.

* **The root.** Exactly one node carries the mark of a root; it is the root, and it has
  nothing above it.
* **The links upwards.** Every other node has a directory above it, and that directory
  lists the node.
* **The children.** Following the children from the root meets every node, and none of
  them twice.
-/

namespace TermShell.Tree

/-- What is wrong with the root. -/
def rootFault? (t : Tree) : Option TreeError :=
  let count := (t.arena.nodes.filter Node.isRoot).length
  if count = 1 ∧ t.rootNode.isRoot ∧ t.rootNode.parent = none then none
  else some (.corrupted (.roots count))

/-- What is wrong with the link that leads upwards from a node. -/
def linkFault? (t : Tree) (n : Node) : Option TreeError :=
  if n.isRoot then none
  else match n.parent with
    | none => some (.corrupted (.noParent n.id))
    | some parent =>
      match t.directory? parent with
      | none => some (.notADirectory parent)
      | some above =>
        if n.id ∈ above.children then none else some (.corrupted (.unlisted n.id))

/-- Follows the pending numbers and the children found there, the last child of a
directory first. Gives the nodes that were not met, or the number at which the way
through the children fails. -/
def meet (t : Tree) (unmet : Arena) (pending : List Nat) : Except TreeError Arena :=
  match pending with
  | [] => .ok unmet
  | id :: rest =>
    match _found : unmet.get? id with
    | some n => t.meet (unmet.erase id) (n.children.reverse ++ rest)
    | none =>
      if t.arena.contains id then .error (.corrupted (.reachedTwice id))
      else .error (.notFound id)
termination_by unmet.size
decreasing_by exact Arena.size_erase_lt _found

/-- What is wrong with the children. -/
def childFault? (t : Tree) : Option TreeError :=
  match t.meet t.arena [t.root] with
  | .error e => some e
  | .ok unmet =>
    if unmet.size = 0 then none
    else some (.corrupted (.unreached (t.size - unmet.size) t.size))

/-- The first fault of the tree, and none if it is intact. -/
def fault? (t : Tree) : Option TreeError :=
  t.rootFault?.or ((t.arena.nodes.findSome? t.linkFault?).or t.childFault?)

/-- The tree has no fault. -/
def Intact (t : Tree) : Prop := t.fault? = none

instance (t : Tree) : Decidable t.Intact := inferInstanceAs (Decidable (_ = _))

end TermShell.Tree
