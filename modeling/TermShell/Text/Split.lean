import TermShell.Text.Blank

/-!
# Cutting texts apart

There are two ways to cut a text. At a *class of characters*: `runs` gives the longest
stretches between members of the class. So the words of a line are its runs between
blanks, and the components of a path its runs between slashes. At a *separator text*:
`splitOn` cuts at every occurrence, `cut?` only at the first.

Occurrences are taken from the left and do not overlap. `replace` puts another text
in the place of each. Where an occurrence of a longer separator has to be skipped, the
recursion carries the number of characters still to be passed over.
-/

namespace TermShell.Text

/-! ## At a class of characters -/

/-- The longest stretches that hold no character of the class. -/
def runs (sep : Char → Bool) (s : List Char) : List (List Char) :=
  (s.splitOnP sep).filter fun p => !p.isEmpty

/-- The words of a text: what stands between its blanks. -/
def words (s : String) : List String := (runs isBlank s.toList).map String.ofList

/-! ## At a separator -/

/-- The part before the first occurrence of `sep` and the part after it. -/
def cutChars? (sep : List Char) : List Char → Option (List Char × List Char)
  | [] => if sep.isEmpty then some ([], []) else none
  | c :: cs =>
    match sep.isPrefixOf? (c :: cs) with
    | some rest => some ([], rest)
    | none => (cutChars? sep cs).map fun ab => (c :: ab.1, ab.2)

/-- The part before the first occurrence of `sep` and the part after it. -/
def cut? (sep s : String) : Option (String × String) :=
  (cutChars? sep.toList s.toList).map fun ab => (String.ofList ab.1, String.ofList ab.2)

/-- The part before the last occurrence of the character `x` and the part after it. -/
def cutLastChars? (x : Char) : List Char → Option (List Char × List Char)
  | [] => none
  | c :: cs =>
    match cutLastChars? x cs with
    | some (before, after) => some (c :: before, after)
    | none => if c = x then some ([], cs) else none

/-- Cuts at every occurrence of a separator that is not empty; `skip` counts the
characters of an occurrence that are still to be passed over. -/
def splitOnChars (sep : List Char) : Nat → List Char → List (List Char)
  | _, [] => [[]]
  | skip + 1, _ :: cs => splitOnChars sep skip cs
  | 0, c :: cs =>
    if sep.isPrefixOf (c :: cs) then [] :: splitOnChars sep (sep.length - 1) cs
    else match splitOnChars sep 0 cs with
      | [] => [[c]]
      | p :: ps => (c :: p) :: ps

/-- The parts of a text between the occurrences of a separator that is not empty. -/
def splitOn (sep s : String) : List String :=
  (splitOnChars sep.toList 0 s.toList).map String.ofList

/-- A text with `new` in the place of every occurrence of `old`, which is not empty. -/
def replace (old new s : String) : String :=
  String.intercalate new (splitOn old s)

/-! ## Leading text -/

/-- What follows `start` in a text that begins with it. -/
def after? (start s : String) : Option String :=
  (start.toList.isPrefixOf? s.toList).map String.ofList

/-- Does the text begin with this character? -/
def beginsWith (c : Char) (s : String) : Bool := s.toList.head? == some c

/-- A text without the copies of one character at its start. -/
def dropLeading (c : Char) (s : String) : String :=
  String.ofList (s.toList.dropWhile (· == c))

end TermShell.Text
