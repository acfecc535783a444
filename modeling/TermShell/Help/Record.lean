import TermShell.Text.Split

/-!
# Help records

The help of a program is a list of records, each a heading and a body. In a file a record
is written between square brackets, with `:=:` between heading and body, and a line of
three dashes separates one record from the next.

Nothing is escaped. A heading or body that holds a separator, or that meets one, is read
back differently; records without such texts come back as they were.
-/

namespace TermShell

/-- A heading and what is said under it. -/
structure HelpRecord where
  heading : String
  body : String
  deriving DecidableEq

namespace HelpRecord

/-- What stands between two records. -/
def recordSeparator : String := "\n---\n"

/-- What stands between heading and body. -/
def fieldSeparator : String := ":=:"

/-- The written form of one record. -/
def encode (r : HelpRecord) : String := "[" ++ r.heading ++ fieldSeparator ++ r.body ++ "]"

/-- The written form of a list of records. -/
def encodeAll (rs : List HelpRecord) : String :=
  String.intercalate recordSeparator (rs.map encode)

/-- What a text in square brackets holds. -/
def unbracket? : List Char → Option (List Char)
  | '[' :: rest => if rest.getLast? = some ']' then some rest.dropLast else none
  | _ => none

/-- Reads one record. Blanks around the brackets do not matter; without brackets or a
field separator there is no record. -/
def decode? (text : String) : Option HelpRecord :=
  (unbracket? (Text.trim text).toList).bind fun inner =>
    (Text.cut? fieldSeparator (String.ofList inner)).map fun hb => ⟨hb.1, hb.2⟩

/-- Reads the records of a text; what is not a record is passed over. -/
def decodeAll (text : String) : List HelpRecord :=
  (Text.splitOn recordSeparator text).filterMap decode?

end HelpRecord

end TermShell
