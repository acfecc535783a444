import TermShell.Path
import TermShell.Tree.Basic

/-!
# Finding nodes by name and path

A walk takes a path one component at a time: a dot stays, two dots go to the parent, and
any other component goes to the child of that name, which has to be a directory.

Several children may answer to one name, because a file answers to its name with and
without the extension, and because nothing keeps names apart. The first child in order
is the one that is meant. On a walk a file can therefore stand in the way of a directory;
where a file is looked for, only files count.
-/

namespace TermShell.Tree

/-- The first child of a directory that is of the wanted kind and answers to the name. -/
def findChild (t : Tree) (directory : Node) (name : String) (wanted : Node → Bool) : Option Node :=
  (t.childrenOf directory).find? fun child => wanted child && child.answersTo name

/-- Any node will do. -/
def anyKind (_ : Node) : Bool := true

/-- One step of a walk. -/
def enter (t : Tree) (here : Node) (component : String) : Option Node :=
  if component = "." then some here
  else if component = ".." then some (t.parentOf here)
  else (t.findChild here component anyKind).filter Node.isDirectory

/-- The walk along the components, which begins at a directory and ends at one. -/
def walk (t : Tree) (start : Node) (components : List String) : Option Node :=
  if start.isDirectory then components.foldlM t.enter start else none

/-- Where a walk along the path begins: at the root if the path starts with a slash. -/
def origin (t : Tree) (start : Node) (path : String) : Node :=
  if Path.isAbsolute path then t.rootNode else start

/-- The directory at the end of a path. -/
def findDirectory (t : Tree) (start : Node) (path : String) : Option Node :=
  t.walk (t.origin start path) (Path.components path)

/-- The file at the end of a path: the last component names a file in the directory to
which the others lead. -/
def findFile (t : Tree) (start : Node) (path : String) : Option Node :=
  match (Path.components path).getLast? with
  | none => none
  | some name =>
    (t.walk (t.origin start path) (Path.components path).dropLast).bind fun directory =>
      t.findChild directory name Node.isFile

/-- The home directory. -/
def home? (t : Tree) : Option Node := t.findDirectory t.rootNode Path.home

/-- What a path typed by the user aims at. -/
def aim (t : Tree) : Path.Target → Option Node
  | .root => some t.rootNode
  | .current => some t.currentDirectory
  | .parent => some (t.parentOf t.currentDirectory)
  | .home => t.home?
  | .absolute components => t.walk t.rootNode components
  | .relative components => t.walk t.currentDirectory components

/-- The directory that a path typed by the user means, seen from the current directory. -/
def resolveDirectory (t : Tree) (path : String) : Option Node := t.aim (Path.classify path)

end TermShell.Tree
