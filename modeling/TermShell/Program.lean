import TermShell.Help.Record
import TermShell.Permission

/-!
# The built-in programs

Every command has a program file, whose contents are the records of its help. The catalog
lists the programs in the order in which they are shown.

Two bodies are placeholders. The list of commands is filled in whenever the help of
`commands` is shown, the list of colours once, when the system starts.
-/

namespace TermShell

/-- A program, by the name of its file and the records of its help. -/
structure Program where
  name : String
  records : List HelpRecord
  deriving DecidableEq

namespace Program

/-- The directory of the program files, seen from the root. -/
def directoryPath : String := "system/programs"

/-- Stands for the list of commands. -/
def commandsPlaceholder : String := "$$$$"

/-- Stands for the list of colours. -/
def colorsPlaceholder : String := "@@@@"

/-- The contents of the program file. -/
def contents (p : Program) : String := HelpRecord.encodeAll p.records

/-- The path of the program file of this name, seen from the root. -/
def path (name : String) : String := directoryPath ++ "/" ++ name

/-- Everything is allowed. -/
def everything : PermissionSet := PermissionSet.ofList Permission.all

/-- How permission sets are written. -/
def permissionFormat : String :=
  "Permission sets are 6 bits in order: " ++ everything.describe ++
  ". If no bits are set, the permissions are " ++ PermissionSet.none.describe ++ "."

/-- Two permission sets in words. -/
def permissionExamples : String :=
  everything.bits ++ ": " ++ everything.describe ++ ".\n" ++
  PermissionSet.none.bits ++ ": " ++ PermissionSet.none.describe ++ "."

/-- The built-in programs. -/
def catalog : List Program := [
  { name := "exit"
    records := [
      ⟨"COMMAND", "exit"⟩,
      ⟨"REMARKS", "Exits Terminal OS."⟩] },
  { name := "help"
    records := [
      ⟨"COMMAND", "help"⟩,
      ⟨"REMARKS", "Displays help about Terminal OS commands."⟩,
      ⟨"EXAMPLES", "help commands    : Display information about the terminal commands."⟩] },
  { name := "color"
    records := [
      ⟨"COMMAND", "color"⟩,
      ⟨"REMARKS",
        "Changes the color of the terminal output.\n" ++
        "Color information is stored in the color config file at /system/config/color.conf."⟩,
      ⟨"EXAMPLES", "color green    : Change the terminal output to green."⟩,
      ⟨"COLORS", colorsPlaceholder⟩] },
  { name := "save"
    records := [
      ⟨"COMMAND", "save"⟩,
      ⟨"REMARKS", "Saves the state of the terminal."⟩] },
  { name := "commands"
    records := [
      ⟨"COMMAND", "commands"⟩,
      ⟨"REMARKS",
        "Displays information about the terminal commands. Use help [command] to get more " ++
        "information about each command."⟩,
      ⟨"COMMANDS", commandsPlaceholder⟩] },
  { name := "list"
    records := [
      ⟨"COMMAND", "ls [list]"⟩,
      ⟨"REMARKS", "Lists contents of a directory."⟩,
      ⟨"EXAMPLES",
        "ls        : List the contents of the current directory.\n" ++
        "ls /system : List the contents of the \"/system\" directory."⟩] },
  { name := "change"
    records := [
      ⟨"COMMAND", "cd [change] [changedir]"⟩,
      ⟨"REMARKS", "Changes directory."⟩,
      ⟨"EXAMPLES",
        "cd ~    : Change directory to the default home directory for the current user."⟩] },
  { name := "view"
    records := [
      ⟨"COMMAND", "vw [view]"⟩,
      ⟨"REMARKS", "View the contents of a file."⟩,
      ⟨"EXAMPLES", "view file.ext    : List the contents of the file.ext file."⟩] },
  { name := "makefile"
    records := [
      ⟨"COMMAND", "mf [makefile]"⟩,
      ⟨"REMARKS", "Make a file."⟩,
      ⟨"EXAMPLES",
        "mf new.txt    : Creates a blank file called 'new.txt' in the current directory."⟩] },
  { name := "makedirectory"
    records := [
      ⟨"COMMAND", "md [makedir] [makedirectory]"⟩,
      ⟨"REMARKS", "Make a directory."⟩,
      ⟨"EXAMPLES",
        "md newdir    : Creates an empty directory called 'newdir' in the current directory."⟩] },
  { name := "edit"
    records := [
      ⟨"COMMAND", "edit"⟩,
      ⟨"REMARKS", "Edit a file."⟩,
      ⟨"EXAMPLES", "edit new.txt    : Edits the 'new.txt' file in the current directory."⟩] },
  { name := "listhardware"
    records := [
      ⟨"COMMAND", "lhw [listhardware]"⟩,
      ⟨"REMARKS", "View a list of hardware for the system."⟩] },
  { name := "viewpermissions"
    records := [
      ⟨"COMMAND", "vp [viewperm] [viewpermissions]"⟩,
      ⟨"REMARKS", "View the permissions of a file or directory."⟩,
      ⟨"FORMAT", permissionFormat⟩,
      ⟨"EXAMPLE SETS", permissionExamples⟩,
      ⟨"EXAMPLES",
        "vp new.txt    : Shows the permissions for the 'new.txt' file in the current " ++
        "directory."⟩] },
  { name := "changepermissions"
    records := [
      ⟨"COMMAND", "chp [changeperm] [changepermissions]"⟩,
      ⟨"REMARKS", "Changes the permissions of a file or directory."⟩,
      ⟨"FORMAT", permissionFormat⟩,
      ⟨"EXAMPLE SETS", permissionExamples⟩,
      ⟨"EXAMPLES",
        "chp new.txt 010100    : Updates the permissions for the 'new.txt' file to \"admin " ++
        "write\" and \"user executable\"."⟩] },
  { name := "date"
    records := [
      ⟨"COMMAND", "date"⟩,
      ⟨"REMARKS", "View the current date."⟩] },
  { name := "time"
    records := [
      ⟨"COMMAND", "time"⟩,
      ⟨"REMARKS", "View the current time."⟩] },
  { name := "now"
    records := [
      ⟨"COMMAND", "now [dt] [datetime] [current]"⟩,
      ⟨"REMARKS", "View the current date and time."⟩] },
  { name := "network"
    records := [
      ⟨"COMMAND", "net [network]"⟩,
      ⟨"REMARKS", "View current networking information."⟩,
      ⟨"ARGUMENTS",
        "-a [--active]: Show active networks.\n" ++
        "-d [--device]: Show network devices.\n" ++
        "-n [--name]: Show network names.\n" ++
        "-v6 [--ipv6]: Show ipv6 addresses.\n" ++
        "-v8 [--ipv8]: Show ipv8 addresses."⟩,
      ⟨"EXAMPLES", "net -a -v8    : Show the ipv8 addresses for active networks."⟩] },
  { name := "deletefile"
    records := [
      ⟨"COMMAND", "df [deletefile]"⟩,
      ⟨"REMARKS", "Deletes a file."⟩,
      ⟨"EXAMPLES", "df new.txt    : Deletes the new.txt file."⟩] },
  { name := "deletedirectory"
    records := [
      ⟨"COMMAND", "dd [deletedirectory]"⟩,
      ⟨"REMARKS", "Deletes a directory."⟩,
      ⟨"ARGUMENTS", "-r [--recurse]: Deletes a folder and all child files and folders."⟩,
      ⟨"EXAMPLES",
        "dd newdir    : Deletes the \"newdir\" directory.\n" ++
        "dd newdir -r : Deletes the \"newdir\" directory and all files and folders inside of it."⟩] }]

/-- The program of this name. -/
def find? (name : String) : Option Program := catalog.find? (·.name == name)

end Program

end TermShell
