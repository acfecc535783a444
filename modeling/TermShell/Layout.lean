import TermShell.Program
import TermShell.Tree.Lookup

/-!
# The standard layout

A fresh system has three top-level directories. `/system` describes the machine and holds
the configuration and the programs; the user may look at it but not make or remove
anything there. `/users/user` belongs to the user. `/temp` is shared and holds logs.

A layout is given as a plan, and planting the plan numbers its nodes in depth-first order,
beginning with the root at zero.
-/

namespace TermShell

/-- A file or directory yet to be made. -/
inductive Plan where
  /-- A file, by its whole name. -/
  | file (name contents : String) (permissions : PermissionSet)
  | directory (name : String) (permissions : PermissionSet) (items : List Plan)

namespace Plan

mutual

/-- How many nodes a plan makes. -/
def count : Plan → Nat
  | .file _ _ _ => 1
  | .directory _ _ items => 1 + countAll items

/-- How many nodes the plans make together. -/
def countAll : List Plan → Nat
  | [] => 0
  | p :: ps => count p + countAll ps

end

/-- The numbers that the plans get, if the first gets `first` and each the number after
those of the plan before it. -/
def numbers (first : Nat) : List Plan → List Nat
  | [] => []
  | p :: ps => first :: numbers (first + p.count) ps

mutual

/-- The nodes of a plan in depth-first order, the first with number `id`. -/
def plant (parent id : Nat) : Plan → List Node
  | .file name contents permissions =>
    let parts := FileName.split name
    [Node.file id parent parts.1 parts.2 contents permissions]
  | .directory name permissions items =>
    ⟨id, name, some parent, permissions, false, .directory (numbers (id + 1) items)⟩ ::
      plantAll id (id + 1) items

/-- The nodes of some plans below one directory, the first with number `id`. -/
def plantAll (parent id : Nat) : List Plan → List Node
  | [] => []
  | p :: ps => plant parent id p ++ plantAll parent (id + p.count) ps

end

/-- The tree that has a root with these permissions, and below it what the plans say. -/
def grow (permissions : PermissionSet) (plans : List Plan) : Arena :=
  Arena.ofList (⟨0, "/", none, permissions, true, .directory (numbers 1 plans)⟩ ::
    plantAll 0 1 plans)

end Plan

namespace Layout

/-! ## Places -/

/-- The file of the colours, seen from the root. -/
def colorConfigPath : String := "system/config/color.conf"

/-- The file of the user's settings, seen from the root. -/
def userConfigPath : String := "users/user/config/user.conf"

/-- The directory of the device descriptions, seen from the root. -/
def devicePath : String := "system/device"

/-- The directory of the network descriptions, seen from the root. -/
def networkPath : String := "system/network"

/-! ## What the files hold -/

/-- The lines of a file that is a list of settings. -/
def settings (lines : List String) : String := String.intercalate "\n" lines

/-- The colours that the terminal offers at first. -/
def colorConfig : String := settings
  ["green:377a1c", "blue:1c387a", "teal:1c677a", "purple:5e1c7a", "orange:7a2f1c", "red:7a1c38"]

/-- The user's first settings. -/
def userConfig : String := settings ["volume:100"]

/-- The message that awaits the user. -/
def welcomeMail : String := "This is a mail file in Terminal OS. Welcome!"

/-- The devices of the machine, by kind. -/
def devices : List (String × List String) := [
  ("display", [
    settings ["name:Monitor", "manufacturer:Display Bois", "h_resolution:1920",
      "v_resolution:1200"]]),
  ("input", [
    settings ["name:USB", "manufacturer:FlashDrive Inc.", "size:34359738368",
      "remaining:28154768992"]]),
  ("memory", [
    settings ["name:L1CACHE", "manufacturer:Notel", "size:32768", "remaining:32768"],
    settings ["name:L2CACHE", "manufacturer:Notel", "size:6291456", "remaining:6291456"],
    settings ["name:DDR2", "manufacturer:Memory Guys", "size:1073741824", "remaining:855253756"],
    settings ["name:DDR2", "manufacturer:Memory Guys", "size:1073741824",
      "remaining:913745724"]]),
  ("processor", [
    settings ["name:CPU", "manufacturer:Notel", "cores:8", "speed:2.2Ghz"]]),
  ("storage", [
    settings ["name:SSD.M2", "manufacturer:SolidStateTech", "size:2199023255552",
      "remaining:1949015253411"],
    settings ["name:SSD.M2", "manufacturer:SolidStateTech", "size:2199023255552",
      "remaining:2016489954243"]])]

/-- The networks of the machine. -/
def networks : List (String × String) := [
  ("ethernet", settings ["device:eth-0", "capacity:1073741824", "active:true",
    "ipv6:2bae::a93c::dd1e::8ane", "ipv8:zEw-F_92!#2A3(3j"]),
  ("loopback", settings ["device:local-0", "capacity:0", "active:true",
    "ipv6:fe02::29aa::39ba::f12e", "ipv8:a!9v(J#M8W*E3@inld"])]

/-! ## The plan -/

/-- A directory that the user may only look at. -/
def systemDirectory (name : String) (items : List Plan) : Plan :=
  .directory name .userRead items

/-- A directory of the user's own. -/
def userDirectory (name : String) (items : List Plan) : Plan :=
  .directory name .userReadWrite items

/-- The directory of one kind of device; its descriptions are numbered from zero. -/
def deviceDirectory (kind : String × List String) : Plan :=
  systemDirectory kind.1
    (kind.2.zipIdx.map fun d => .file (Text.decimal d.2) d.1 .userRead)

/-- The description of a network, which is not for the user's eyes. -/
def networkFile (network : String × String) : Plan :=
  .file network.1 network.2 .adminReadWrite

/-- The file of a program. -/
def programFile (program : Program) : Plan :=
  .file program.name program.contents .userExecutable

/-- What stands at the top of a fresh system. -/
def plans : List Plan := [
  systemDirectory "system" [
    systemDirectory "config" [.file "color.conf" colorConfig .userReadWrite],
    systemDirectory "device" (devices.map deviceDirectory),
    systemDirectory "logs" [],
    systemDirectory "network" (networks.map networkFile),
    systemDirectory "programs" (Program.catalog.map programFile)],
  systemDirectory "users" [
    userDirectory "user" [
      userDirectory "config" [.file "user.conf" userConfig .userReadWrite],
      userDirectory "home" [
        userDirectory "mail" [
          .file "welcome-to-terminal-os.mail" welcomeMail .userReadWrite]],
      userDirectory "programs" []]],
  systemDirectory "temp" [systemDirectory "logs" []]]

/-- The number of the home directory. -/
def home : Nat := 48

/-- A fresh system: the standard layout, with the home directory as the current one. -/
def tree : Tree := ⟨0, home, Plan.grow .userRead plans⟩

example : tree.home?.map Node.id = some home := by decide +kernel

end Layout

end TermShell
