import TermShell.Node

/-!
# Listings

A listing is what a directory shows to someone who may read it: its path and an entry for
each child, in the order of the children.
-/

namespace TermShell

/-- One line of a listing. -/
structure Listing.Entry where
  id : Nat
  fullName : String
  isDirectory : Bool
  permissions : PermissionSet
  deriving DecidableEq

/-- What a directory shows. -/
structure Listing where
  path : String
  entries : List Listing.Entry
  deriving DecidableEq

namespace Listing

/-- The entry of a node. -/
def Entry.ofNode (n : Node) : Entry := ⟨n.id, n.fullName, n.isDirectory, n.permissions⟩

/-- The line of an entry; a directory has a slash after its name. -/
def Entry.line (e : Entry) : String := if e.isDirectory then e.fullName ++ "/" else e.fullName

/-- The listing as a text, a line for each entry. -/
def render (l : Listing) : String := String.intercalate "\n" (l.entries.map Entry.line)

end Listing

end TermShell
