import TermShell.Text.Split

/-!
# Lines of a text

A line feed ends a line; it is not part of it, and a text that ends in one has no
empty line after it. A carriage return in front of the line feed belongs to the line
end too. Elsewhere it is an ordinary character, also at the very end of a text whose
last line has no line feed.
-/

namespace TermShell.Text

/-- A list of characters without the one carriage return that may end it. -/
def dropReturn (s : List Char) : List Char :=
  if s.getLast? = some '\r' then s.dropLast else s

/-- Reads the pieces between line feeds as lines: the last piece is the line that no
line feed ended, and there is none if it is empty. -/
def linesOfPieces : List (List Char) → List (List Char)
  | [] => []
  | [last] => if last.isEmpty then [] else [last]
  | p :: q :: ps => dropReturn p :: linesOfPieces (q :: ps)

/-- The lines of a list of characters. -/
def linesChars (s : List Char) : List (List Char) := linesOfPieces (s.splitOn '\n')

/-- The lines of a text. -/
def lines (s : String) : List String := (linesChars s.toList).map String.ofList

example : lines "a\r\nb\n\nc\r" = ["a", "b", "", "c\r"] := by decide +kernel

end TermShell.Text
