import TermShell.Interpreter
import TermShell.Report.Hardware
import TermShell.Report.Network
import TermShell.Snapshot
import TermShell.Source

/-!
# The host

The host runs the shell: it shows the prompt, takes a line, has it interpreted and shows
the outcome. What it writes is collected in `output`.

Two outcomes cannot be settled by the host alone. The editor needs further lines, and a
save needs a place to write to. `Host.enter` therefore takes a line as far as it goes and
says in a `Request` what is still missing; `Host.edit` and `Host.settleSave` do the rest.
`Host.step` puts them together for a source whose lines are all there, and `Host.run`
takes steps until the shell is left or the source gives no more lines.

A step that fails has still been counted and may have written something. All else is then
as it was before.
-/

namespace TermShell

open Calendar (Instant)

/-- Why a step or a run ends early. -/
inductive HostError where
  | source (cause : SourceError)
  | volume (cause : VolumeError)
  | settings (cause : SettingsError)
  | report (cause : ReportError)
  deriving DecidableEq

/-- A failure in words. -/
def HostError.message : HostError → String
  | .source cause => "Script error: " ++ cause.message
  | .volume cause => "Directory error: " ++ cause.message
  | .settings cause => "Config error: " ++ cause.message
  | .report cause => "Provider error: " ++ cause.message

/-- The shell and what it has done so far. -/
structure Host where
  volume : Volume
  /-- What the clock shows by which the shell tells the time. -/
  now : Instant
  /-- Are messages written in the chosen colour? -/
  colorOutput : Bool
  /-- The chosen colour, by name and value. -/
  color : Option (String × Rgb)
  /-- Has the shell not been left? -/
  running : Bool
  /-- How many lines have been interpreted. -/
  steps : Nat
  /-- All that has been written. -/
  output : String
  /-- Why nothing can be saved, unless it can. -/
  saveFault : Option String
  /-- The last snapshot that could be saved. A save that fails leaves it as it is, whatever has
  become of the file that was to be written. -/
  saved : Option Snapshot
  deriving DecidableEq

/-- What a line still asks for when it has been interpreted. -/
inductive Request where
  /-- Nothing more. -/
  | done
  /-- The lines to be written to a file, which is called by its full name. -/
  | editor (file : Nat) (name : String)
  /-- To save this. -/
  | save (snapshot : Snapshot)
  deriving DecidableEq

namespace Host

/-- A fresh system, with the names of the colours in the help of the color program. -/
def boot (now : Instant) (colorOutput : Bool) (saveFault : Option String) : Host where
  volume := Settings.refreshed Volume.standard
  now := now
  colorOutput := colorOutput
  color := none
  running := true
  steps := 0
  output := ""
  saveFault := saveFault
  saved := none

/-! ## Writing -/

/-- Writes a text as it is. -/
def write (h : Host) (s : String) : Host := { h with output := h.output ++ s }

/-- The characters that switch the terminal to a colour. -/
def colorCode (c : Rgb) : String :=
  "\x1b[38;2;" ++ Text.decimal c.red.val ++ ";" ++ Text.decimal c.green.val ++ ";" ++
    Text.decimal c.blue.val ++ "m"

/-- A message in the chosen colour, if there is one and colours are written. -/
def colored (h : Host) (text : String) : String :=
  match h.color, h.colorOutput with
  | some (_, c), true => colorCode c ++ text ++ "\x1b[0m"
  | _, _ => text

/-- Writes a message on a line of its own. -/
def print (h : Host) (text : String) : Host := h.write (h.colored text ++ "\n")

/-- Writes the prompt. -/
def prompt (h : Host) : Host := h.write (h.volume.tree.currentPath ++ "> ")

/-- Writes a line that comes from a script. -/
def echo (h : Host) (scripted : Bool) (line : String) : Host :=
  if scripted then h.write (line ++ "\n") else h

/-! ## Outcomes -/

/-- The name of the chosen colour. -/
def colorName (h : Host) : Option String := h.color.map Prod.fst

/-- The state of the shell as it is saved. -/
def snapshot (h : Host) : Snapshot :=
  ⟨h.volume.tree.currentPath, h.colorName, h.volume.tree⟩

/-- What a step leaves to be done, or why it fails. -/
abbrev Pending := Except HostError Request

/-- Shows a directory, and nothing for one without children. -/
def showList (h : Host) (path : Option String) : Host × Pending :=
  match h.volume.list path with
  | .ok listing => (if listing.entries.isEmpty then h else h.print listing.render, .ok .done)
  | .error (.notADirectory path) =>
    (h.print (Interpreter.quoted path ++ " is not a directory."), .ok .done)
  | .error (.insufficientPermission path) =>
    (h.print ("Insufficient permissions to list the " ++ Interpreter.quoted path ++ " directory."),
      .ok .done)
  | .error e => (h, .error (.volume e))

/-- Shows the devices. -/
def showHardware (h : Host) : Host × Pending :=
  match Report.hardware h.volume with
  | .ok report => (h.print report, .ok .done)
  | .error e => (h, .error (.report e))

/-- Shows the networks; an argument that is no flag is answered with a message. -/
def showNetwork (h : Host) (arguments : List String) : Host × Pending :=
  match Report.network h.volume arguments with
  | .ok report => (h.print report, .ok .done)
  | .error (.unknownNetworkArgument argument) =>
    (h.print (ReportError.unknownNetworkArgument argument).message, .ok .done)
  | .error e => (h, .error (.report e))

/-- Takes a colour from now on. -/
def takeColor (h : Host) (name hex : String) : Host × Pending :=
  match Settings.parseColor hex with
  | .ok color => ({ h with color := some (name, color) }, .ok .done)
  | .error e => (h, .error (.settings e))

/-- Asks for the lines of a file. -/
def openEditor (h : Host) (file : Nat) : Host × Pending :=
  match h.volume.tree.get? file with
  | some n => (h, .ok (.editor file n.fullName))
  | none => (h, .error (.volume (.notFound (Node.label file))))

/-- Shows an outcome. -/
def present (h : Host) : Outcome → Host × Pending
  | .message text => (h.print text, .ok .done)
  | .silent => (h, .ok .done)
  | .list path => h.showList path
  | .edit file => h.openEditor file
  | .color name hex => h.takeColor name hex
  | .hardware => h.showHardware
  | .network arguments => h.showNetwork arguments
  | .save => (h, .ok (.save h.snapshot))
  | .exit => ({ h with running := false }, .ok .done)

/-- Interprets a line, and takes it as far as it goes without further lines or a place to
save to. -/
def enter (h : Host) (line : String) : Host × Pending :=
  let result := Interpreter.execute h.now h.volume line
  present { h with volume := result.1, steps := h.steps + 1 } result.2

/-! ## Saving -/

/-- Tells how saving went: nothing was in the way, or something was. -/
def settleSave (h : Host) (snapshot : Snapshot) : Option String → Host
  | none => print { h with saved := some snapshot } "Progress saved."
  | some reason => h.print ("Unable to save: I/O error: " ++ reason)

/-! ## Editing -/

/-- The line that ends the input of the editor. -/
def terminator : String := "."

/-- What the editor takes from a source. -/
structure Entry where
  /-- The lines for the file. -/
  lines : List String
  /-- The lines that were taken, the last one included that ends the input. -/
  taken : List String
  /-- What remains of the source. -/
  rest : List Reading
  /-- The failure that cut the input short. -/
  failure : Option SourceError
  deriving DecidableEq

/-- Takes lines up to the one that ends the input, or up to the end of the source. -/
def collect : List Reading → Entry
  | [] => ⟨[], [], [], none⟩
  | .failure reason :: rest => ⟨[], [], rest, some (.read reason)⟩
  | .line text :: rest =>
    if text = terminator then ⟨[], [text], rest, none⟩
    else
      let entry := collect rest
      { entry with lines := text :: entry.lines, taken := text :: entry.taken }

/-- What a person is told on opening the editor. -/
def invitation (name : String) : String :=
  "Editing " ++ Interpreter.quoted name ++ ". Enter a line with only " ++
    Interpreter.quoted terminator ++ " to finish."

/-- Invites a person to enter lines; a script needs no invitation. -/
def invite (h : Host) (scripted : Bool) (name : String) : Host :=
  if scripted then h else h.print (invitation name)

/-- Writes the lines to the file. -/
def storeLines (h : Host) (file : Nat) (name : String) (lines : List String) :
    Host × Option HostError :=
  match h.volume.write file (String.intercalate "\n" lines) with
  | .ok v => (print { h with volume := v } (Interpreter.quoted name ++ " saved."), none)
  | .error e => (h, some (.volume e))

/-- Where a step or a run has come to. -/
structure Turn where
  host : Host
  /-- What remains of the source. -/
  rest : List Reading
  /-- Why it ended early, if it did. -/
  fault : Option HostError
  deriving DecidableEq

/-- Takes the lines of a source, and writes them to the file unless reading fails. -/
def takeEntry (h : Host) (file : Nat) (name : String) (scripted : Bool)
    (readings : List Reading) : Turn :=
  let entry := collect readings
  let shown := entry.taken.foldl (fun h line => h.echo scripted line) h
  match entry.failure with
  | some e => ⟨shown, entry.rest, some (.source e)⟩
  | none =>
    let stored := shown.storeLines file name entry.lines
    ⟨stored.1, entry.rest, stored.2⟩

/-- Replaces the contents of a file by the lines of a source. -/
def edit (h : Host) (file : Nat) (name : String) (scripted : Bool) (readings : List Reading) :
    Turn :=
  (h.invite scripted name).takeEntry file name scripted readings

/-! ## Steps and runs -/

/-- Takes one line all the way; the readings are there for the editor. -/
def step (h : Host) (line : String) (scripted : Bool) (readings : List Reading) : Turn :=
  match h.enter line with
  | (h', .error e) => ⟨h', readings, some e⟩
  | (h', .ok .done) => ⟨h', readings, none⟩
  | (h', .ok (.save snapshot)) => ⟨h'.settleSave snapshot h'.saveFault, readings, none⟩
  | (h', .ok (.editor file name)) => h'.edit file name scripted readings

theorem length_rest_collect_le : ∀ rs : List Reading, (collect rs).rest.length ≤ rs.length
  | [] => Nat.le_refl _
  | .failure _ :: rest => Nat.le_succ _
  | .line text :: rest => by
    unfold collect
    split
    · exact Nat.le_succ _
    · exact Nat.le_trans (length_rest_collect_le rest) (Nat.le_succ _)

/-- A step leaves no more readings than it was given. -/
theorem length_rest_step_le (h : Host) (line : String) (scripted : Bool)
    (readings : List Reading) :
    (h.step line scripted readings).rest.length ≤ readings.length := by
  unfold step
  split
  · exact Nat.le_refl _
  · exact Nat.le_refl _
  · exact Nat.le_refl _
  · unfold edit takeEntry
    dsimp only
    split <;> exact length_rest_collect_le readings

/-- Takes lines until the shell is left, the source gives no more, or a step fails. -/
def run (h : Host) (scripted : Bool) (readings : List Reading) : Turn :=
  if h.running then
    match readings with
    | [] => ⟨h.prompt.write "\n", [], none⟩
    | .failure reason :: rest => ⟨h.prompt, rest, some (.source (.read reason))⟩
    | .line text :: rest =>
      let turn := (h.prompt.echo scripted text).step text scripted rest
      match turn.fault with
      | some _ => turn
      | none => turn.host.run scripted turn.rest
  else ⟨h, readings, none⟩
termination_by readings.length
decreasing_by exact Nat.lt_succ_of_le (length_rest_step_le _ _ _ _)

end Host

end TermShell
