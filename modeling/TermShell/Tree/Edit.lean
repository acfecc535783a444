import TermShell.Tree.Reach

/-!
# Changing a tree

Five operations change a tree; each either gives a new tree or refuses with a cause and
gives none. What they require is checked where it is stated here and nowhere else. In
particular `insert` takes any node whatever: whether the outcome is still a tree in the
strict sense depends on the node.
-/

namespace TermShell.Tree

/-- Makes the directory of this number the current one. -/
def setCurrent (t : Tree) (id : Nat) : Option Tree :=
  (t.directory? id).map fun _ => { t with current := id }

/-- The tree with another arena. -/
def withArena (t : Tree) (arena : Arena) : Tree := { t with arena }

/-- Appends a node to the children of `parent`. Its link upwards becomes `parent`, and it
loses the mark of a root. -/
def insert (t : Tree) (parent : Nat) (n : Node) : Except TreeError Tree :=
  match t.get? parent with
  | none => .error (.notFound parent)
  | some p =>
    if p.isDirectory then
      let listed := t.arena.put (p.withChildren (p.children ++ [n.id]))
      .ok (t.withArena (listed.put { n with parent := some parent, isRoot := false }))
    else .error (.notADirectory parent)

/-- Takes the child `id` off the directory `parent`, at the first place where it is listed,
and drops the child with all that can be reached from it. If the current directory is
dropped, `parent` becomes the current one. Says whether there was such a child; if not,
nothing changes. -/
def remove (t : Tree) (parent id : Nat) : Except TreeError (Tree × Bool) :=
  if id = t.root then .error .rootRemoval
  else match t.get? parent with
    | none => .error (.notFound parent)
    | some p =>
      if p.isDirectory then
        if id ∈ p.children then
          let arena := (t.arena.put (p.withChildren (p.children.erase id))).prune id
          let current := if arena.contains t.current then t.current else parent
          .ok (⟨t.root, current, arena⟩, true)
        else .ok (t, false)
      else .error (.notADirectory parent)

/-- Gives a node another permission set. -/
def setPermissions (t : Tree) (id : Nat) (permissions : PermissionSet) :
    Except TreeError Tree :=
  match t.get? id with
  | none => .error (.notFound id)
  | some n => .ok (t.withArena (t.arena.put { n with permissions }))

/-- Gives a file other contents. -/
def write (t : Tree) (id : Nat) (contents : String) : Except TreeError Tree :=
  match t.get? id with
  | none => .error (.notFound id)
  | some n =>
    if n.isFile then .ok (t.withArena (t.arena.put (n.withContents contents)))
    else .error (.notAFile id)

end TermShell.Tree
