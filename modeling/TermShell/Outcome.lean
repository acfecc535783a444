import TermShell.Node

/-!
# Outcomes

A line that has been interpreted has exactly one outcome. Some outcomes are complete, such
as a message. Others ask whoever runs the shell to do something that lies outside the
volume, for instance to open an editor or to save.
-/

namespace TermShell

/-- What comes of a line. -/
inductive Outcome where
  /-- Show a text. -/
  | message (text : String)
  /-- Show nothing. -/
  | silent
  /-- Show what is in a directory, without a path in the current one. -/
  | list (path : Option String)
  /-- Open the editor on a file. -/
  | edit (file : Nat)
  /-- Write in this colour from now on. -/
  | color (name hex : String)
  /-- Show the devices. -/
  | hardware
  /-- Show the networks, as the arguments ask. -/
  | network (arguments : List String)
  /-- Save the state of the shell. -/
  | save
  /-- Leave the shell. -/
  | exit
  deriving DecidableEq

end TermShell
