import TermShell.Text.Number

/-!
# Structured texts

A value is null, a truth value, a number, a text, a list of values or an object, whose
fields have names. Only natural numbers occur. The written form is that of JSON, one item to
a line and indented by depth.

The fields of an object are kept in the order in which they are written, but that order
means nothing: what is read from an object is found by names.
-/

namespace TermShell

/-- A structured value. -/
inductive Json where
  | null
  | bool (value : Bool)
  | number (value : Nat)
  | text (value : String)
  | list (items : List Json)
  | object (fields : List (String × Json))

namespace Json

/-! ## Taking values apart -/

/-- The truth value. -/
def bool? : Json → Option Bool
  | .bool b => some b
  | _ => none

/-- The number. -/
def number? : Json → Option Nat
  | .number n => some n
  | _ => none

/-- The text. -/
def text? : Json → Option String
  | .text s => some s
  | _ => none

/-- Reads the items of a list. -/
def list? {α : Type} (decode? : Json → Option α) : Json → Option (List α)
  | .list items => items.mapM decode?
  | _ => none

/-- A value that may be null. -/
def optional {α : Type} (encode : α → Json) : Option α → Json
  | some a => encode a
  | none => .null

/-- Reads a value that may be null. -/
def optional? {α : Type} (decode? : Json → Option α) : Json → Option (Option α)
  | .null => some none
  | j => (decode? j).map some

/-- The values of all fields of an object that have the name. -/
def named (name : String) : Json → List Json
  | .object fields => (fields.filter (·.1 == name)).map Prod.snd
  | _ => []

/-- Reads the value of the field of this name, of which there must be one and no second. -/
def read? {α : Type} (name : String) (decode? : Json → Option α) (j : Json) : Option α :=
  match j.named name with
  | [value] => decode? value
  | _ => none

/-- Reads the value of a field that may be null or left out. -/
def readOptional? {α : Type} (name : String) (decode? : Json → Option α) (j : Json) :
    Option (Option α) :=
  match j.named name with
  | [] => some none
  | [value] => optional? decode? value
  | _ => none

/-- Reads all fields of an object in which no name occurs twice. -/
def fields? {α : Type} (decode? : String × Json → Option α) : Json → Option (List α)
  | .object fields => if (fields.map Prod.fst).Nodup then fields.mapM decode? else none
  | _ => none

/-! ## The written form -/

/-- A hexadecimal digit. -/
def hexDigit (n : Nat) : Char := Nat.digitChar (n % 16)

/-- A character inside a quoted text. -/
def escape (c : Char) : List Char :=
  if c = '"' then ['\\', '"']
  else if c = '\\' then ['\\', '\\']
  else if c = '\n' then ['\\', 'n']
  else if c = '\r' then ['\\', 'r']
  else if c = '\t' then ['\\', 't']
  else if c = '\x08' then ['\\', 'b']
  else if c = '\x0c' then ['\\', 'f']
  else if c.toNat < 32 then ['\\', 'u', '0', '0', hexDigit (c.toNat / 16), hexDigit c.toNat]
  else [c]

/-- A text in quotes. -/
def quote (s : String) : String := "\"" ++ String.ofList (s.toList.flatMap escape) ++ "\""

/-- A new line, indented by depth. -/
def newline (depth : Nat) : String := "\n" ++ String.ofList (List.replicate (2 * depth) ' ')

mutual

/-- The written form of a value at some depth. -/
def render (depth : Nat) : Json → String
  | .null => "null"
  | .bool true => "true"
  | .bool false => "false"
  | .number n => Text.decimal n
  | .text s => quote s
  | .list [] => "[]"
  | .list items =>
    "[" ++ String.intercalate "," (renderItems (depth + 1) items) ++ newline depth ++ "]"
  | .object [] => "\x7b\x7d"
  | .object fields =>
    "\x7b" ++ String.intercalate "," (renderFields (depth + 1) fields) ++ newline depth ++ "\x7d"

/-- The written forms of items, each on a line of its own. -/
def renderItems (depth : Nat) : List Json → List String
  | [] => []
  | j :: js => (newline depth ++ render depth j) :: renderItems depth js

/-- The written forms of fields, each on a line of its own. -/
def renderFields (depth : Nat) : List (String × Json) → List String
  | [] => []
  | (name, j) :: rest =>
    (newline depth ++ quote name ++ ": " ++ render depth j) :: renderFields depth rest

end

end Json

end TermShell
