import TermShell.Text.Split

/-!
# Colours

A colour has three channels, each a number below 256. Its text form is six hexadecimal
digits, two to a channel. On reading, letters may be of either case and any number of `#`
may come first; on writing, the letters are small and there is no `#`.
-/

namespace TermShell

/-- A colour by its three channels. -/
structure Rgb where
  red : Fin 256
  green : Fin 256
  blue : Fin 256
  deriving DecidableEq

namespace Rgb

/-- What a hexadecimal digit counts. -/
def digit? (c : Char) : Option (Fin 16) :=
  if h : '0' ≤ c ∧ c ≤ '9' then
    some ⟨c.toNat - 48, by have : c.toNat ≤ 57 := h.2; omega⟩
  else if h : 'a' ≤ c ∧ c ≤ 'f' then
    some ⟨c.toNat - 87, by have : c.toNat ≤ 102 := h.2; omega⟩
  else if h : 'A' ≤ c ∧ c ≤ 'F' then
    some ⟨c.toNat - 55, by have : c.toNat ≤ 70 := h.2; omega⟩
  else none

/-- The digit that counts so much. -/
def digit (d : Fin 16) : Char := Char.ofNat (if d.val < 10 then 48 + d.val else 87 + d.val)

/-- The channel that two digits give. -/
def channel (high low : Fin 16) : Fin 256 := ⟨16 * high.val + low.val, by omega⟩

/-- The two digits of a channel. -/
def digits (x : Fin 256) : List Char :=
  [digit ⟨x.val / 16, by omega⟩, digit ⟨x.val % 16, by omega⟩]

/-- Two digits give back the channel they were taken from. -/
theorem channel_of_digits (x : Fin 256) :
    channel ⟨x.val / 16, by omega⟩ ⟨x.val % 16, by omega⟩ = x := by
  apply Fin.ext
  show 16 * (x.val / 16) + x.val % 16 = x.val
  omega

/-- Reads six digits, with any number of `#` before them. -/
def ofHex? (text : String) : Option Rgb :=
  match (text.toList.dropWhile (· == '#')).mapM digit? with
  | some [r, r', g, g', b, b'] => some ⟨channel r r', channel g g', channel b b'⟩
  | _ => none

/-- The six digits of a colour. -/
def hex (c : Rgb) : String := String.ofList (digits c.red ++ digits c.green ++ digits c.blue)

example : ofHex? "##1C387a" = some ⟨0x1c, 0x38, 0x7a⟩ := by decide +kernel
example : (Rgb.mk 0x1c 0x38 0x7a).hex = "1c387a" := by decide +kernel

end Rgb

end TermShell
