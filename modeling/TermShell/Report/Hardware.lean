import TermShell.Report.Basic

/-!
# The hardware report

Each kind of device has a directory, and each device of the kind a file there. A device is
shown under a heading of kind and file name, with one indented line for each setting.
-/

namespace TermShell.Report

/-- The line of one setting of a device. -/
def propertyLine (kv : String × String) : String := "    " ++ kv.1 ++ ": " ++ kv.2

/-- The section of a device. -/
def deviceSection (kind file : Node) : Option String :=
  (Config.parse file.text).map fun config =>
    kind.name ++ "/" ++ file.fullName ++ "\n" ++
      String.intercalate "\n" (config.settings.map propertyLine)

/-- The sections of the devices of one kind. -/
def kindSections (t : Tree) (kind : Node) : List String :=
  ((t.childrenOf kind).filter Node.isFile).filterMap (deviceSection kind)

/-- The sections of all devices below a directory. -/
def hardwareSections (t : Tree) (devices : Node) : List String :=
  ((t.childrenOf devices).filter Node.isDirectory).flatMap (kindSections t)

/-- The hardware report. -/
def hardware (v : Volume) : Except ReportError String :=
  (directory v Layout.devicePath).map fun devices =>
    String.intercalate "\n" (hardwareSections v.tree devices)

end TermShell.Report
