import TermShell.Path
import TermShell.Tree.Basic

/-!
# The path of a node

The path of a node spells the names from below the root down to the node. It is found by
following the links to the directory above, up to a node with the mark of the root or
one that has nothing above it.

In an intact tree that takes fewer steps than there are nodes. In a broken one the links
may go round in circles, so the walk up stops once it has collected one name more than
there are nodes.
-/

namespace TermShell.Tree

/-- The names met on the way up from a node, at most `limit` of them; the node marked as
root has none. -/
def namesUp (t : Tree) : Nat → Node → List String
  | 0, _ => []
  | limit + 1, n =>
    if n.isRoot then []
    else n.fullName ::
      match n.parent.bind t.get? with
      | some above => t.namesUp limit above
      | none => []

/-- The names on the way from below the root down to the node. -/
def names (t : Tree) (n : Node) : List String := (t.namesUp (t.size + 1) n).reverse

/-- The path that spells these names. -/
def spell (names : List String) : String := Path.rootText ++ String.intercalate "/" names

/-- The path of a node; that of the root is a single slash. -/
def path (t : Tree) (n : Node) : String := spell (t.names n)

/-- The path of a directory, and for a file that of the directory which holds it. -/
def directoryPath (t : Tree) (n : Node) : String :=
  if n.isDirectory then t.path n else t.path (t.parentOf n)

/-- The path of the current directory. -/
def currentPath (t : Tree) : String := t.path t.currentDirectory

/-- The path of a node as seen from the current directory: for what lies at or below it
the rest of the path, for all else the whole path. -/
def relativePath (t : Tree) (n : Node) : String :=
  let absolute := t.path n
  if t.currentPath = Path.rootText then Text.dropLeading Path.separator absolute
  else match Text.after? t.currentPath absolute with
    | some rest =>
      if rest.isEmpty || Path.isAbsolute rest then Text.dropLeading Path.separator rest
      else absolute
    | none => absolute

end TermShell.Tree
