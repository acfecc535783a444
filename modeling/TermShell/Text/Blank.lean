/-!
# Blank space

A line typed at the prompt is cut into words at blanks, and names, keys and values
are trimmed of them. *Blank* means Unicode's `White_Space` property and nothing
narrower: a no-break space or an ideographic space ends a word just as a plain
space does, while a zero-width space does not.

The functions work on lists of characters, where recursion and induction are at
hand; the ones that other modules call take and return strings.
-/

namespace TermShell.Text

/-- A character of Unicode's `White_Space` property. -/
def isBlank (c : Char) : Bool :=
  (0x9 ≤ c.toNat && c.toNat ≤ 0xD) || c.toNat == 0x20 || c.toNat == 0x85 ||
  c.toNat == 0xA0 || c.toNat == 0x1680 || (0x2000 ≤ c.toNat && c.toNat ≤ 0x200A) ||
  c.toNat == 0x2028 || c.toNat == 0x2029 || c.toNat == 0x202F || c.toNat == 0x205F ||
  c.toNat == 0x3000

/-- The property has twenty-five members; all of them stand in these places. -/
example : ((List.range 0x21 ++ [0x85, 0xA0, 0x1680] ++ List.range' 0x2000 0x60 ++ [0x3000]).filter
    fun n => isBlank (Char.ofNat n)).length = 25 := by
  decide +kernel

/-- What is left of a list when the elements satisfying `p` at its end are gone. -/
def dropEndWhile {α : Type} (p : α → Bool) (s : List α) : List α :=
  (s.reverse.dropWhile p).reverse

/-- A list of characters without the blanks at its start. -/
def trimStartChars (s : List Char) : List Char := s.dropWhile isBlank

/-- A list of characters without the blanks at its end. -/
def trimEndChars (s : List Char) : List Char := dropEndWhile isBlank s

/-- A list of characters without the blanks at either end. -/
def trimChars (s : List Char) : List Char := trimEndChars (trimStartChars s)

/-- A text without the blanks at its end. -/
def trimEnd (s : String) : String := String.ofList (trimEndChars s.toList)

/-- A text without the blanks at either end. -/
def trim (s : String) : String := String.ofList (trimChars s.toList)

end TermShell.Text
