import TermShell.Text.Blank
import TermShell.Text.Case
import TermShell.Text.Split

/-!
# Commands

A line typed at the prompt is cut into words at blanks. The first word names a command, in
any letter case and by any of the command's aliases; the others are its arguments. There
is no quoting, so neither a name nor an argument can hold a blank.
-/

namespace TermShell

/-- The commands of the shell. -/
inductive Command where
  | exit
  | help
  | color
  | save
  | commands
  | listDirectory
  | changeDirectory
  | viewFile
  | makeFile
  | makeDirectory
  | editFile
  | listHardware
  | viewPermissions
  | changePermissions
  | date
  | time
  | now
  | network
  | deleteFile
  | deleteDirectory
  deriving DecidableEq

namespace Command

/-- Every command, in the order in which they are shown. -/
def all : List Command :=
  [.exit, .help, .color, .save, .commands, .listDirectory, .changeDirectory, .viewFile,
   .makeFile, .makeDirectory, .editFile, .listHardware, .viewPermissions, .changePermissions,
   .date, .time, .now, .network, .deleteFile, .deleteDirectory]

theorem mem_all (c : Command) : c ∈ all := by cases c <;> decide

/-- The words that name a command, in small letters. -/
def aliases : Command → List String
  | .exit => ["exit"]
  | .help => ["help"]
  | .color => ["color"]
  | .save => ["save"]
  | .commands => ["commands"]
  | .listDirectory => ["ls", "list"]
  | .changeDirectory => ["cd", "change", "changedir"]
  | .viewFile => ["vw", "view"]
  | .makeFile => ["mf", "makefile"]
  | .makeDirectory => ["md", "makedir", "makedirectory"]
  | .editFile => ["edit"]
  | .listHardware => ["lhw", "listhardware"]
  | .viewPermissions => ["vp", "viewperm", "viewpermissions"]
  | .changePermissions => ["chp", "changeperm", "changepermissions"]
  | .date => ["date"]
  | .time => ["time"]
  | .now => ["now", "dt", "datetime", "current"]
  | .network => ["net", "network"]
  | .deleteFile => ["df", "deletefile"]
  | .deleteDirectory => ["dd", "deletedirectory"]

/-- The command that a word names. -/
def ofWord? (word : String) : Option Command :=
  all.find? fun c => c.aliases.contains (Text.foldCase word)

/-- The name of the program file that holds the help of a command. -/
def programName : Command → String
  | .exit => "exit"
  | .help => "help"
  | .color => "color"
  | .save => "save"
  | .commands => "commands"
  | .listDirectory => "list"
  | .changeDirectory => "change"
  | .viewFile => "view"
  | .makeFile => "makefile"
  | .makeDirectory => "makedirectory"
  | .editFile => "edit"
  | .listHardware => "listhardware"
  | .viewPermissions => "viewpermissions"
  | .changePermissions => "changepermissions"
  | .date => "date"
  | .time => "time"
  | .now => "now"
  | .network => "network"
  | .deleteFile => "deletefile"
  | .deleteDirectory => "deletedirectory"

/-- Does the command make no sense without an argument? Given alone, such a command shows
its help. -/
def needsArgument : Command → Bool
  | .color | .changeDirectory | .viewFile | .makeFile | .makeDirectory | .editFile
  | .viewPermissions | .changePermissions | .deleteFile | .deleteDirectory => true
  | _ => false

/-- Every alias names its command, so no two commands share one. -/
theorem ofWord?_of_mem_aliases (c : Command) : ∀ w ∈ c.aliases, ofWord? w = some c := by
  cases c <;> decide +kernel

end Command

/-- A line that has at least one word. -/
structure CommandLine where
  /-- The first word as typed. -/
  word : String
  /-- The words after it. -/
  arguments : List String
  deriving DecidableEq

namespace CommandLine

/-- Reads a line; a blank one has nothing to read. -/
def parse (line : String) : Option CommandLine :=
  match Text.words line with
  | [] => none
  | word :: arguments => some ⟨word, arguments⟩

/-- The command that the line names. -/
def command? (l : CommandLine) : Option Command := Command.ofWord? l.word

/-- Is there nothing but the command? -/
def isBare (l : CommandLine) : Bool := l.arguments.isEmpty

/-- The first argument, and the empty text if there is none. -/
def first (l : CommandLine) : String := l.arguments.headD ""

/-- The second argument, and the empty text if there is none. -/
def second (l : CommandLine) : String := l.arguments.tail.headD ""

end CommandLine

end TermShell
