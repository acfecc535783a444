/-!
# Numbers in texts

Counts and node numbers are written in plain decimal, clock fields with leading zeros.
-/

namespace TermShell.Text

/-- A number in decimal. -/
def decimal (n : Nat) : String := String.ofList (Nat.toDigits 10 n)

/-- A number in decimal, with zeros in front up to a given width. -/
def padded (width n : Nat) : String :=
  String.ofList (List.replicate (width - (Nat.toDigits 10 n).length) '0' ++ Nat.toDigits 10 n)

example : padded 4 33 = "0033" := by decide +kernel

end TermShell.Text
