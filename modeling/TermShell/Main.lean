import Std.Time.DateTime.Timestamp
import TermShell.Host
import TermShell.Options

/-!
# The program

Runs the shell on standard input or on a script. The clock, the terminal and the files are
met here and nowhere else; what to do with them is the host's affair (`TermShell.Host`).
-/

namespace TermShell.Main

open Calendar (Instant)

/-- The present instant. -/
def presentInstant : IO Instant := do
  let nanos : Int := (← Std.Time.Timestamp.now).toNanosecondsSinceUnixEpoch.val
  return ⟨nanos / 1000000000, (nanos % 1000000000).toNat⟩

/-- Sends off what the host has written since it was last sent off. -/
def send (h : Host) : IO Host := do
  let out ← IO.getStdout
  out.putStr h.output
  out.flush
  return { h with output := "" }

/-- Reads one line of standard input. -/
def readLine : IO (Option Reading) := do
  try
    let text ← (← IO.getStdin).getLine
    return (Source.ofText text).readings.head?
  catch _ => return some (.failure Source.notUtf8)

/-- Takes the next reading of a script. -/
def takeReading (script : IO.Ref (List Reading)) : IO (Option Reading) :=
  script.modifyGet fun readings => (readings.head?, readings.tail)

/-- Takes readings for the editor, up to the one that ends its input. -/
partial def readEntry (next : IO (Option Reading)) : IO (List Reading) := do
  match ← next with
  | none => return []
  | some (.failure reason) => return [.failure reason]
  | some (.line text) =>
    if text = Host.terminator then return [.line text]
    else return .line text :: (← readEntry next)

/-- What stood in the way, in the words of the operating system. -/
def reason : IO.Error → String
  | .noFileOrDirectory .. => "No such file or directory (os error 2)"
  | .permissionDenied .. => "Permission denied (os error 13)"
  | .inappropriateType .. => "Is a directory (os error 21)"
  | e => toString e

/-- Writes a snapshot to a file, stamped with the present instant, and says why that was not
possible. -/
def writeSnapshot (path : String) (s : Snapshot) : IO (Option String) := do
  try
    IO.FS.writeFile path ((s.toJson (← presentInstant)).render 0)
    return none
  catch e => return some (reason e)

/-- Takes a line all the way, as `Host.step` does. -/
def takeLine (savePath : String) (scripted : Bool) (next : IO (Option Reading)) (h : Host)
    (line : String) : IO (Host × Option HostError) := do
  match { h with now := ← presentInstant }.enter line with
  | (h, .error e) => return (h, some e)
  | (h, .ok .done) => return (h, none)
  | (h, .ok (.save s)) => return (h.settleSave s (← writeSnapshot savePath s), none)
  | (h, .ok (.editor file name)) =>
    let h ← send (h.invite scripted name)
    let turn := h.takeEntry file name scripted (← readEntry next)
    return (turn.host, turn.fault)

/-- Takes lines as `Host.run` does, and gives the failure that ended the run early. -/
partial def loop (savePath : String) (scripted : Bool) (next : IO (Option Reading)) (h : Host) :
    IO (Option HostError) := do
  if !h.running then return none
  let h ← send h.prompt
  match ← next with
  | none =>
    discard <| send (h.write "\n")
    return none
  | some (.failure reason) => return some (.source (.read reason))
  | some (.line text) =>
    let (h, fault) ← takeLine savePath scripted next (h.echo scripted text) text
    let h ← send h
    match fault with
    | some e => return some e
    | none => loop savePath scripted next h

/-- Tells what went wrong and why, and gives the exit code for it. -/
def fail (what cause : String) : IO UInt32 := do
  (← IO.getStderr).putStrLn ("Error: " ++ what ++ "\n\nCaused by:\n    " ++ cause)
  return 1

/-- Runs the shell. -/
def runShell (o : Options) : IO UInt32 := do
  let colorOutput := !o.plain && (← (← IO.getStdout).isTty)
  let h := Host.boot (← presentInstant) colorOutput none
  let savePath := o.savePath.getD Options.defaultSavePath
  let fault ← match o.script with
    | none => loop savePath false readLine h
    | some path =>
      let text ← try IO.FS.readFile path catch e =>
        return ← fail ("Failed to read script file " ++ path) (reason e)
      match Source.ofScript text with
      | .error e => return ← fail ("Invalid script " ++ path) e.message
      | .ok source => loop savePath true (takeReading (← IO.mkRef source.readings)) h
  match fault with
  | none => return 0
  | some e => fail "Runtime error" e.message

end TermShell.Main

/-- Starts the program with its arguments. -/
def main (arguments : List String) : IO UInt32 := do
  match TermShell.Options.parse arguments with
  | .ok (.run options) => TermShell.Main.runShell options
  | .ok .help =>
    IO.println TermShell.Options.helpText
    return 0
  | .ok .version =>
    IO.println TermShell.Options.versionText
    return 0
  | .error e =>
    (← IO.getStderr).putStrLn e.message
    return 2
