import TermShell.Report.Basic
import TermShell.Text.Case

/-!
# The network report

The report has one line for each network, and flags say which networks and which columns.
The flags act as a set: neither their order nor repeating them matters, and columns come
in their own fixed order. Without a flag for a column, all columns are shown.
-/

namespace TermShell.Report

/-- What a line can say about a network. -/
inductive Column where
  | name
  | device
  | ipv6
  | ipv8
  deriving DecidableEq

namespace Column

/-- The columns in the order of the report. -/
def all : List Column := [.name, .device, .ipv6, .ipv8]

/-- The key of the setting that a column shows; the name is that of the file. -/
def key? : Column → Option String
  | .name => none
  | .device => some "device"
  | .ipv6 => some "ipv6"
  | .ipv8 => some "ipv8"

end Column

/-- What one argument asks for. -/
inductive Flag where
  /-- Only networks that are active. -/
  | active
  /-- A column. -/
  | column (c : Column)
  deriving DecidableEq

namespace Flag

/-- The flags with their spellings, in small letters. -/
def spellings : List (Flag × List String) := [
  (.active, ["-a", "--active"]),
  (.column .name, ["-n", "--name"]),
  (.column .device, ["-d", "--device"]),
  (.column .ipv6, ["-v6", "--ipv6"]),
  (.column .ipv8, ["-v8", "--ipv8"])]

/-- The flag that an argument spells, in any letter case. -/
def ofArgument? (argument : String) : Option Flag :=
  (spellings.find? fun s => s.2.contains (Text.foldCase argument)).map Prod.fst

end Flag

/-- What the report shall show. -/
structure Query where
  /-- Leave out networks that are not active. -/
  activeOnly : Bool
  /-- The columns, in the order of the report. -/
  columns : List Column
  deriving DecidableEq

namespace Query

/-- The flags of the arguments, or the first argument that is none. -/
def flags : List String → Except ReportError (List Flag)
  | [] => .ok []
  | argument :: rest =>
    match Flag.ofArgument? argument with
    | none => .error (.unknownNetworkArgument argument)
    | some flag => (flags rest).map (flag :: ·)

/-- The columns that the flags ask for. -/
def selected (fs : List Flag) : List Column := Column.all.filter fun c => fs.contains (.column c)

/-- The query that the flags make. -/
def ofFlags (fs : List Flag) : Query :=
  ⟨fs.contains .active, if (selected fs).isEmpty then Column.all else selected fs⟩

/-- The query that the arguments make. -/
def parse (arguments : List String) : Except ReportError Query := (flags arguments).map ofFlags

end Query

/-- What a column says about the network in a file. -/
def field (file : Node) (config : Config) (c : Column) : String :=
  match c.key? with
  | none => file.fullName
  | some key => key ++ ": " ++ (config.get? key).getD "-"

/-- The line of a network, if the query lets it through. -/
def networkLine (q : Query) (file : Node) : Option String :=
  (Config.parse file.text).bind fun config =>
    if q.activeOnly && config.get? "active" != some "true" then none
    else some (String.intercalate "  " (q.columns.map (field file config)))

/-- The lines of the networks in a directory. -/
def networkLines (t : Tree) (q : Query) (networks : Node) : List String :=
  ((t.childrenOf networks).filter Node.isFile).filterMap (networkLine q)

/-- The text of some lines, or a notice that there are none. -/
def networkText : List String → String
  | [] => "No networks found."
  | lines => String.intercalate "\n" lines

/-- The network report. -/
def network (v : Volume) (arguments : List String) : Except ReportError String :=
  match Query.parse arguments with
  | .error e => .error e
  | .ok q => (directory v Layout.networkPath).map fun networks =>
      networkText (networkLines v.tree q networks)

end TermShell.Report
