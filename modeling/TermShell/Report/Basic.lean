import TermShell.Config
import TermShell.Volume

/-!
# Reports

The devices and networks of the machine are described by files of the system directory,
in the form of configuration texts. A report is made from these files whatever their
permissions are, and wherever the current directory is. A file without any setting
describes nothing and is left out.
-/

namespace TermShell

/-- Why there is no report. -/
inductive ReportError where
  /-- The directory of the descriptions is gone. -/
  | missingDirectory (path : String)
  /-- The argument is no flag of the network report. -/
  | unknownNetworkArgument (argument : String)
  deriving DecidableEq

/-- A failure in words. -/
def ReportError.message : ReportError → String
  | .missingDirectory path => "Missing directory: /" ++ path
  | .unknownNetworkArgument argument => "\"" ++ argument ++ "\" is not a valid network argument."

namespace Report

/-- The directory of descriptions at a path, seen from the root. -/
def directory (v : Volume) (path : String) : Except ReportError Node :=
  match v.tree.findDirectory v.tree.rootNode path with
  | some directory => .ok directory
  | none => .error (.missingDirectory path)

end Report

end TermShell
