import TermShell.Text.Lines

/-!
# Configuration texts

A configuration is a list of settings, one to a line: a key, a colon, a value. Only the
first colon of a line counts, so a value may hold colons. Blanks around key and value are
dropped. A line without a colon, or with nothing before it, is no setting and is passed
over; a text without any setting is no configuration at all.

The order of the settings is kept, and a key may come more than once. Asked for a key, the
configuration answers with the first.
-/

namespace TermShell

/-- Settings in the order of the text, each a key with its value. -/
structure Config where
  settings : List (String × String)
  deriving DecidableEq

namespace Config

/-- Reads one line. -/
def setting? (line : String) : Option (String × String) :=
  (Text.cut? ":" line).bind fun kv =>
    let key := Text.trim kv.1
    if key.isEmpty then none else some (key, Text.trim kv.2)

/-- Reads a text. -/
def parse (text : String) : Option Config :=
  match (Text.lines text).filterMap setting? with
  | [] => none
  | settings => some ⟨settings⟩

/-- The value of a key. -/
def get? (c : Config) (key : String) : Option String :=
  (c.settings.find? (·.1 == key)).map Prod.snd

/-- The keys in order. -/
def keys (c : Config) : List String := c.settings.map Prod.fst

/-- How many settings there are. -/
def size (c : Config) : Nat := c.settings.length

/-- A text that holds these settings, one to a line. -/
def render (c : Config) : String :=
  String.intercalate "\n" (c.settings.map fun kv => kv.1 ++ ":" ++ kv.2)

end Config

end TermShell
