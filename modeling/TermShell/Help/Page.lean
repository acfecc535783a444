import TermShell.Command
import TermShell.Help.Record
import TermShell.Text.Lines
import TermShell.Volume

/-!
# Help pages

The help of a command is read from its program file each time it is shown, so a page shows
what the file holds. Each record becomes a section: the heading on a line of its own, and
under it the lines of the body, indented.
-/

namespace TermShell.Help

/-- What stands before each line of a body. -/
def indent : String := "    "

/-- The names of the programs of all commands, one to a line. -/
def commandNames : String := String.intercalate "\n" (Command.all.map Command.programName)

/-- A record as a section of a page, with the list of commands filled in. -/
def sectionText (r : HelpRecord) : String :=
  let body := Text.replace Program.commandsPlaceholder commandNames r.body
  r.heading ++ "\n" ++ String.intercalate "\n" ((Text.lines body).map (indent ++ ·))

/-- The page that a text of records makes. -/
def pageOf (contents : String) : String :=
  String.intercalate "\n\n" ((HelpRecord.decodeAll contents).map sectionText)

/-- The help of a command, or a notice that its program file is gone. -/
def page (v : Volume) (c : Command) : String :=
  match v.tree.findFile v.tree.rootNode (Program.path c.programName) with
  | some program => pageOf program.text
  | none => "No help is available for \"" ++ c.programName ++ "\"."

/-- The help on a topic: that of the command which the topic names, and otherwise the help
on help. -/
def topic (v : Volume) (topic : String) : String :=
  page v ((Command.ofWord? topic).getD .help)

end TermShell.Help
