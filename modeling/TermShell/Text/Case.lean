/-!
# Letter case of keywords

Command names, flags and the shorthands for places are matched without regard to case,
by Unicode's lower-case forms. All keywords are ASCII, so only the characters whose
lower-case form is ASCII can make a difference: the capitals `A` to `Z`, and the Kelvin
sign `U+212A`, whose lower-case form is `k`. The form of `U+0130` begins with an `i` but
carries a combining dot, which no keyword contains.

`foldCase` therefore need not be the lower-case form of every text; it is enough that it
equals a keyword exactly when the lower-case form does.
-/

namespace TermShell.Text

/-- The lower-case form of a character that has an ASCII one, and other characters
as they are. -/
def foldChar (c : Char) : Char :=
  if 'A' ≤ c ∧ c ≤ 'Z' then Char.ofNat (c.toNat + 32)
  else if c = '\u212A' then 'k'
  else c

/-- A text in the form in which it is compared with keywords. -/
def foldCase (s : String) : String := String.ofList (s.toList.map foldChar)

end TermShell.Text
