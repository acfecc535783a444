import TermShell.Text.Lines

/-!
# Where lines come from

The shell takes its lines from a script or from a reader, and either way a source is the
list of what reading from it gives, one reading after the other.

* A **script** is a text prepared for the purpose. Trailing blanks are dropped, and lines
  that are blank or begin with `#` are left out, all before the first line is taken.
* A **reader** gives every line as it comes, without the line feed and without carriage
  returns at its end. It reads bytes; where the bytes of a line are not UTF-8, reading
  fails.

Only a script is echoed: what a person types is on the screen already.
-/

namespace TermShell

/-- Why a source fails. -/
inductive SourceError where
  /-- The script has no line. -/
  | emptyScript
  /-- Reading fails for the given reason. -/
  | read (reason : String)
  deriving DecidableEq

/-- A failure in words. -/
def SourceError.message : SourceError → String
  | .emptyScript => "Empty script"
  | .read reason => "Read error: " ++ reason

/-- What one attempt to read gives. -/
inductive Reading where
  | line (text : String)
  | failure (reason : String)
  deriving DecidableEq

/-- What there is to read. -/
structure Source where
  /-- Do the lines come from a script? -/
  scripted : Bool
  readings : List Reading
  deriving DecidableEq

namespace Source

/-! ## Scripts -/

/-- Is there something to do in the line? -/
def isCommandLine (line : String) : Bool :=
  match Text.trimStartChars line.toList with
  | [] => false
  | c :: _ => c != '#'

/-- The lines of a script. -/
def scriptLines (text : String) : List String :=
  ((Text.lines text).map Text.trimEnd).filter isCommandLine

/-- The source of a script, which must have a line. -/
def ofScript (text : String) : Except SourceError Source :=
  match scriptLines text with
  | [] => .error .emptyScript
  | lines => .ok ⟨true, lines.map .line⟩

/-! ## Readers -/

/-- The pieces that are read one by one: each ends with a line feed, the last with the end
of the text. -/
def chunks {α : Type} : List (List α) → List (List α)
  | [] => []
  | [last] => if last.isEmpty then [] else [last]
  | p :: q :: ps => p :: chunks (q :: ps)

/-- A line as a reader gives it. -/
def readerLine (chunk : List Char) : String :=
  String.ofList (Text.dropEndWhile (· == '\r') chunk)

/-- The source of a reader of a text. -/
def ofText (text : String) : Source :=
  ⟨false, (chunks (text.toList.splitOn '\n')).map fun c => .line (readerLine c)⟩

/-- Why bytes are refused. -/
def notUtf8 : String := "stream did not contain valid UTF-8"

/-- What reading some bytes as a line gives. -/
def readBytes (chunk : List UInt8) : Reading :=
  match String.fromUTF8? (ByteArray.mk chunk.toArray) with
  | some text => .line (readerLine text.toList)
  | none => .failure notUtf8

/-- The source of a reader of bytes. -/
def ofBytes (bytes : List UInt8) : Source :=
  ⟨false, (chunks (bytes.splitOn 10)).map readBytes⟩

/-- The lines up to the end of the source or the first failure, and that failure. -/
def linesAndFailure : List Reading → List String × Option SourceError
  | [] => ([], none)
  | .failure reason :: _ => ([], some (.read reason))
  | .line text :: rest =>
    let after := linesAndFailure rest
    (text :: after.1, after.2)

end Source

end TermShell
