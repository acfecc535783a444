import TermShell.Calendar.Format
import TermShell.Help.Page
import TermShell.Outcome
import TermShell.Settings

/-!
# The interpreter

`execute` takes one line to its outcome and to the volume after it. Every failure is told
in a message, and a line that fails leaves the volume as it was.

What the user may do is decided here. To make, delete or change the permissions of
something asks for leave to write in the current directory; to edit a file, for leave to
write the file; to look into a file or directory, for leave to read it. A program is not
shown, whatever its permissions otherwise are.
-/

namespace TermShell.Interpreter

open Calendar (Instant)

/-! ## Phrases -/

/-- A text in double quotes. -/
def quoted (s : String) : String := "\"" ++ s ++ "\""

/-- The answer where nothing at all answers to a name. -/
def missing (name : String) : Outcome :=
  .message ("No file or folder with the name " ++ quoted name ++ " exists.")

/-- The answer to a volume that refuses unexpectedly. -/
def failed (e : VolumeError) : Outcome := .message ("Operation failed: " ++ e.message)

/-- The answer where a file or directory could not be made. -/
def notMade (name : String) : VolumeError → Outcome
  | .emptyName | .invalidName _ => .message (quoted name ++ " is not a valid name.")
  | e => failed e

/-- The answer to someone who may not delete here. -/
def mayNotDelete (name : String) : Outcome :=
  .message ("Insufficient permissions to delete " ++ quoted name ++ " in the current directory.")

/-! ## Looking -/

/-- The help on the first argument, or on the command itself. -/
def help (v : Volume) (l : CommandLine) : Outcome :=
  .message (Help.topic v (l.arguments.headD l.word))

/-- Shows a file. -/
def viewFile (v : Volume) (l : CommandLine) : Outcome :=
  match v.resolveFile l.first with
  | none => .message (quoted l.first ++ " does not exist.")
  | some file =>
    if file.permissions.isExecutable then .message (quoted l.first ++ " is an executable.")
    else if file.permissions.userReads then .message file.text
    else .message ("Insufficient permissions to view the " ++ quoted l.first ++ " file.")

/-- Opens the editor on a file of the current directory. -/
def editFile (v : Volume) (l : CommandLine) : Outcome :=
  match v.find l.first Node.isFile with
  | .ok file =>
    if file.permissions.userWrites then .edit file.id
    else .message ("Insufficient permissions to edit the " ++ quoted l.first ++ " file.")
  | .error .emptyName => .message "File can't be edited without a name."
  | .error _ => .message ("No file with the name '" ++ l.first ++ "' exists.")

/-- Shows the permissions of something in the current directory. -/
def viewPermissions (v : Volume) (l : CommandLine) : Outcome :=
  match v.find l.first Tree.anyKind with
  | .ok n => .message (n.permissions.bits ++ ": " ++ n.permissions.describe)
  | .error _ => missing l.first

/-- Chooses a colour. -/
def changeColor (v : Volume) (l : CommandLine) : Outcome :=
  match Settings.color v l.first with
  | .ok (some color) => .color l.first color.hex
  | _ => .message (quoted l.first ++ " is not a valid color.")

/-! ## Moving and changing -/

/-- Goes to a directory. -/
def changeDirectory (v : Volume) (l : CommandLine) : Volume × Outcome :=
  match v.resolveDirectory l.first with
  | none => (v, .message (quoted l.first ++ " is not a directory."))
  | some target =>
    if target.permissions.userReads then (v.setCurrent target.id, .silent)
    else (v, .message ("Insufficient permissions to enter the " ++ quoted (v.tree.path target) ++
      " directory."))

/-- What has been made, or why nothing has. -/
def made (v : Volume) (name : String) : Except VolumeError Volume → Volume × Outcome
  | .ok v' => (v', .silent)
  | .error e => (v, notMade name e)

/-- Makes a file. -/
def makeFile (v : Volume) (l : CommandLine) : Volume × Outcome :=
  if v.allows ⟨.user, .write⟩ then made v l.first (v.createFile l.first)
  else (v, .message "Insufficient permissions to create a file in the current directory.")

/-- Makes a directory. -/
def makeDirectory (v : Volume) (l : CommandLine) : Volume × Outcome :=
  if v.allows ⟨.user, .write⟩ then made v l.first (v.createDirectory l.first)
  else (v, .message "Insufficient permissions to create a directory in the current directory.")

/-- Gives something in the current directory other permissions. -/
def changePermissions (v : Volume) (l : CommandLine) : Volume × Outcome :=
  if v.allows ⟨.user, .write⟩ then
    match v.find l.first Tree.anyKind with
    | .error _ => (v, missing l.first)
    | .ok n =>
      match PermissionSet.parse l.second with
      | .error _ =>
        (v, .message (quoted l.second ++ " is not a valid permission set. Permission sets are " ++
          "exactly 6 characters of \"0\" or \"1\"."))
      | .ok permissions =>
        match v.setPermissions n.id permissions with
        | .ok v' =>
          (v', .message (quoted l.first ++ " permissions updated to " ++ permissions.bits ++ "."))
        | .error e => (v, failed e)
  else
    (v, .message "Insufficient permissions to change permissions in the current directory.")

/-- Deletes the child of this number, and says that the name is gone. -/
def deleteChild (v : Volume) (name : String) (id : Nat) : Volume × Outcome :=
  match v.delete id with
  | .ok (v', _) => (v', .message (quoted name ++ " deleted."))
  | .error e => (v, failed e)

/-- Deletes a file of the current directory. -/
def deleteFile (v : Volume) (l : CommandLine) : Volume × Outcome :=
  if v.allows ⟨.user, .write⟩ then
    match v.find l.first Node.isFile with
    | .ok file => deleteChild v l.first file.id
    | .error .emptyName => (v, .message "File can't be deleted without a name.")
    | .error _ => (v, .message ("No file with the name of " ++ quoted l.first ++ " exists."))
  else (v, mayNotDelete l.first)

/-- The arguments that let a directory be deleted with all that is in it. -/
def recurseFlags : List String := ["-r", "--recurse"]

/-- Does an argument after the name let a directory be deleted with all that is in it? -/
def recurses (l : CommandLine) : Bool := l.arguments.tail.any recurseFlags.contains

/-- Deletes a directory in the current one. -/
def deleteDirectory (v : Volume) (l : CommandLine) : Volume × Outcome :=
  if v.allows ⟨.user, .write⟩ then
    match v.find l.first Node.isDirectory with
    | .ok directory =>
      if recurses l || directory.children.isEmpty then deleteChild v l.first directory.id
      else (v, .message ("Cannot delete the " ++ quoted l.first ++
        " directory, it has files or folders in it."))
    | .error .emptyName => (v, .message "Directory can't be deleted without a name.")
    | .error _ => (v, .message ("No folder with the name of " ++ quoted l.first ++ " exists."))
  else (v, mayNotDelete l.first)

/-! ## Lines -/

/-- Carries out a command. -/
def perform (now : Instant) (v : Volume) (c : Command) (l : CommandLine) : Volume × Outcome :=
  match c with
  | .exit => (v, .exit)
  | .help | .commands => (v, help v l)
  | .color => (v, changeColor v l)
  | .save => (v, .save)
  | .listDirectory => (v, .list l.arguments.head?)
  | .changeDirectory => changeDirectory v l
  | .viewFile => (v, viewFile v l)
  | .makeFile => makeFile v l
  | .makeDirectory => makeDirectory v l
  | .editFile => (v, editFile v l)
  | .listHardware => (v, .hardware)
  | .viewPermissions => (v, viewPermissions v l)
  | .changePermissions => changePermissions v l
  | .date => (v, .message now.worldTime.dateText)
  | .time => (v, .message now.worldTime.timeText)
  | .now => (v, .message (now.worldTime.timeText ++ ", " ++ now.worldTime.dateText))
  | .network => (v, .network l.arguments)
  | .deleteFile => deleteFile v l
  | .deleteDirectory => deleteDirectory v l

/-- Carries out a line that is not blank. A command that needs an argument and has none
shows its help instead. -/
def run (now : Instant) (v : Volume) (l : CommandLine) : Volume × Outcome :=
  match l.command? with
  | none =>
    (v, .message (quoted l.word ++
      " is an unknown command. Use \"commands\" to get a list of available commands."))
  | some c =>
    if c.needsArgument && l.isBare then (v, .message (Help.page v c))
    else perform now v c l

/-- Carries out a line as typed; a blank one does nothing. -/
def execute (now : Instant) (v : Volume) (line : String) : Volume × Outcome :=
  match CommandLine.parse line with
  | none => (v, .silent)
  | some l => run now v l

end TermShell.Interpreter
