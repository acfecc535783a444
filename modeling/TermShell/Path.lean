import TermShell.Text.Blank
import TermShell.Text.Case
import TermShell.Text.Split

/-!
# Paths

A path names a place in the tree by its components, with slashes between them. How many
slashes stand between two components, or at either end, does not matter; only a slash at
the very start says something: that the walk begins at the root.

Five whole paths are shorthands. `/` and `root` mean the root, `.` the current directory,
`..` its parent and `~` the home directory. A shorthand is recognised with blanks around
it and in any letter case, and before the path is cut into components, so that `root/x`
is an ordinary path.
-/

namespace TermShell.Path

/-- The character between components. -/
def separator : Char := '/'

/-- The separator as a text, which is also the path of the root. -/
def rootText : String := "/"

/-- Where the user is at home, seen from the root. -/
def home : String := "users/user/home"

/-- The components of a path: what stands between its slashes. -/
def components (path : String) : List String :=
  (Text.runs (· == separator) path.toList).map String.ofList

/-- Does the walk along this path begin at the root? -/
def isAbsolute (path : String) : Bool := Text.beginsWith separator path

/-- What a path typed by the user aims at. -/
inductive Target where
  /-- The root itself. -/
  | root
  /-- The current directory. -/
  | current
  /-- The parent of the current directory. -/
  | parent
  /-- The home directory. -/
  | home
  /-- A walk from the root. -/
  | absolute (components : List String)
  /-- A walk from the current directory. -/
  | relative (components : List String)
  deriving DecidableEq

/-- What a shorthand aims at; the text is already folded to lower case. -/
def shorthand? (word : String) : Option Target :=
  if word = rootText ∨ word = "root" then some .root
  else if word = "." then some .current
  else if word = ".." then some .parent
  else if word = "~" then some .home
  else none

/-- Reads a path typed by the user. A path of slashes alone is the root. -/
def classify (path : String) : Target :=
  let trimmed := Text.trim path
  match shorthand? (Text.foldCase trimmed) with
  | some target => target
  | none =>
    if isAbsolute trimmed then
      match components trimmed with
      | [] => .root
      | cs => .absolute cs
    else .relative (components trimmed)

/-- May a new file or directory have this name? Not if a walk would take the name for
something else, that is if it is empty, a dot or two dots or holds a slash, and not if it
holds a null character. -/
def isValidName (name : String) : Bool :=
  !name.isEmpty && name != "." && name != ".." &&
    !name.toList.contains separator && !name.toList.contains '\x00'

example : components "//a///b/" = ["a", "b"] := by decide +kernel
example : classify " \u212A/.." = .relative ["\u212A", ".."] := by decide +kernel

end TermShell.Path
