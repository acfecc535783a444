import TermShell.Proofs.Host.Session
import TermShell.Proofs.Tree.Views
import TermShell.Tree.Address

/-!
# The system area

The user is kept out of `/system` and `/temp`, and out of the two directories above their own,
by permissions alone: in none of these directories may they write, and of all files there they
may write but one, the list of colours. `fence_fresh` says that this is enough. A session can
then change the contents of that one file and the children of `/users/user`, and otherwise
nothing outside of `/users/user`.

What the shell reads for itself, the help and the descriptions of the machine, lies there. So
pages and reports are the same at the end of a session as at its start.
-/

namespace TermShell

open Calendar (Instant)

namespace Host

/-- What a session may change, by the place of a node in a fresh system. -/
def zoneOfNames : List String → Zone
  | [] => .fixed
  | ["system", "config", "color.conf"] => .written
  | "system" :: _ => .fixed
  | ["users"] => .fixed
  | ["users", "user"] => .furnished
  | "temp" :: _ => .fixed
  | _ => .free

/-- The volume of a fresh system. It is not to be computed except where that is asked for. -/
@[irreducible] def fresh : Volume := (boot ⟨0, 0⟩ true none).volume

/-- A fresh system has the same volume whatever the surroundings. -/
theorem volume_boot (now : Instant) (colorOutput : Bool) (saveFault : Option String) :
    (boot now colorOutput saveFault).volume = fresh := by
  unfold fresh
  rfl

/-- What a session may change of a node of a fresh system. -/
def zone (n : Node) : Zone := zoneOfNames (fresh.tree.names n)

theorem sound_fresh : fresh.tree.Sound := by
  obtain ⟨hintact, hroot, hcurrent⟩ : fresh.tree.Intact ∧
      (fresh.tree.directory? fresh.tree.root).isSome = true ∧
      (fresh.tree.directory? fresh.tree.current).isSome = true := by decide +kernel
  exact ⟨hintact, Option.isSome_iff_exists.mp hroot, Option.isSome_iff_exists.mp hcurrent⟩

/-- **The permissions of a fresh system make a fence.** -/
theorem fence_fresh : Tree.Fence zone fresh.tree := by
  have hall : ∀ n ∈ fresh.tree.arena.nodes,
      (zone n = .fixed → n.permissions.userWrites = false) ∧
      (zone n = .written → n.isFile = true) ∧
      (zone n = .furnished → n.isDirectory = true) ∧
      (zone n ≠ .free → ∀ p ∈ n.parent, (fresh.tree.get? p).map zone = some .fixed) := by
    decide +kernel
  constructor
  · exact fun _ n hn => (hall n (Arena.mem_of_get? hn)).1
  · exact fun _ n hn => (hall n (Arena.mem_of_get? hn)).2.1
  · exact fun _ n hn => (hall n (Arena.mem_of_get? hn)).2.2.1
  · exact fun _ n p hn hz hp =>
      Option.map_eq_some_iff.mp ((hall n (Arena.mem_of_get? hn)).2.2.2 hz p hp)

/-- The three directories from which the shell reads. -/
def readDirectories : List (List String) :=
  [["system", "programs"], ["system", "device"], ["system", "network"]]

/-- **What the shell reads lies inside the fence**, and so does all that it has to look at to find
it. -/
theorem readDirectories_paved : ∀ path ∈ readDirectories,
    Tree.paved zone fresh.tree fresh.tree.rootNode path = true ∧
      ∀ d, fresh.tree.walk fresh.tree.rootNode path = some d →
        Tree.enclosed zone fresh.tree d = true := by
  have hall : ∀ path ∈ readDirectories,
      Tree.paved zone fresh.tree fresh.tree.rootNode path = true ∧
        ∀ d ∈ fresh.tree.walk fresh.tree.rootNode path,
          Tree.enclosed zone fresh.tree d = true := by decide +kernel
  exact hall

/-- The kinds of devices lie inside the fence as well. -/
theorem devices_enclosed {d kind : Node}
    (hd : fresh.tree.walk fresh.tree.rootNode ["system", "device"] = some d)
    (hkind : kind ∈ fresh.tree.childrenOf d) : Tree.enclosed zone fresh.tree kind = true := by
  have hall : ∀ d ∈ fresh.tree.walk fresh.tree.rootNode ["system", "device"],
      ∀ kind ∈ fresh.tree.childrenOf d, Tree.enclosed zone fresh.tree kind = true := by
    decide +kernel
  exact hall d hd kind hkind

/-! ## What every session keeps -/

variable {v : Volume}

/-- The volume keeps what a fresh system has outside the reach of the user. -/
structure Kept (v : Volume) : Prop where
  sound : v.tree.Sound
  root : v.tree.root = fresh.tree.root
  keeps : Tree.Keeps zone fresh.tree v.tree

theorem Kept.of_moves (h : fresh.tree.Moves v.tree) : Kept v where
  sound := (h.sound sound_fresh).1
  root := (h.sound sound_fresh).2
  keeps := h.keeps fence_fresh sound_fresh (.refl _ _)

theorem Kept.rootNode (h : Kept v) : v.tree.rootNode = fresh.tree.rootNode := by
  -- the root is one of the nodes that stay fixed
  have hroot : zone fresh.tree.rootNode = .fixed := by decide +kernel
  have hget : fresh.tree.get? fresh.tree.root = some fresh.tree.rootNode :=
    (Tree.directory?_eq_some_iff.mp sound_fresh.directory?_root).1
  have hkept := h.keeps _ _ hget
  rw [hroot] at hkept
  exact Tree.rootNode_of_get? (h.root ▸ hkept)

/-! ## Pages and reports -/

/-- **Every page of help is what it was.** -/
theorem Kept.page_eq (h : Kept v) (c : Command) : Help.page v c = Help.page fresh c := by
  have hfront : ∀ c ∈ Command.all,
      (Path.components (Program.path c.programName)).dropLast = ["system", "programs"] := by
    decide +kernel
  obtain ⟨hpaved, hencl⟩ := readDirectories_paved ["system", "programs"] (by decide)
  unfold Help.page
  rw [h.keeps.findFile_rootNode_eq h.rootNode (hfront c (Command.mem_all c)) hpaved hencl]

/-- The descriptions of the machine are looked for where they were. -/
theorem Kept.directory_eq (h : Kept v) {path : String}
    (hp : Path.components path ∈ readDirectories) :
    Report.directory v path = Report.directory fresh path := by
  unfold Report.directory
  rw [h.keeps.findDirectory_rootNode_eq h.rootNode (readDirectories_paved _ hp).1]

theorem components_devicePath : Path.components Layout.devicePath = ["system", "device"] := by
  decide +kernel

theorem components_networkPath : Path.components Layout.networkPath = ["system", "network"] := by
  decide +kernel

theorem Kept.devices_eq (h : Kept v) :
    Report.directory v Layout.devicePath = Report.directory fresh Layout.devicePath :=
  h.directory_eq (by rw [components_devicePath]; decide)

theorem Kept.networks_eq (h : Kept v) :
    Report.directory v Layout.networkPath = Report.directory fresh Layout.networkPath :=
  h.directory_eq (by rw [components_networkPath]; decide)

/-- The directory of a report is at the end of its path. -/
theorem walk_of_directory {path : String} {d : Node} (h : Report.directory v path = .ok d) :
    v.tree.walk v.tree.rootNode (Path.components path) = some d := by
  unfold Report.directory at h
  split at h
  · rename_i d' hd
    rw [← Except.ok.inj h]
    rwa [Tree.findDirectory, Tree.origin_rootNode] at hd
  · exact absurd h (by simp)

/-- **The hardware report is what it was.** -/
theorem Kept.hardware_eq (h : Kept v) : Report.hardware v = Report.hardware fresh := by
  unfold Report.hardware
  rw [h.devices_eq]
  cases hd : Report.directory fresh Layout.devicePath with
  | error e => rfl
  | ok d =>
    have hwalk := walk_of_directory hd
    rw [components_devicePath] at hwalk
    have hsections : Report.hardwareSections v.tree d = Report.hardwareSections fresh.tree d := by
      unfold Report.hardwareSections
      rw [h.keeps.childrenOf_eq ((readDirectories_paved _ (by decide)).2 d hwalk)]
      -- one level further down: the devices of each kind
      refine List.flatMap_congr fun kind hkind => ?_
      have hencl := devices_enclosed hwalk (List.mem_filter.mp hkind).1
      rw [Report.kindSections, h.keeps.childrenOf_eq hencl, Report.kindSections]
    simp only [Except.map, hsections]

/-- **The network report is what it was**, whatever is asked for. -/
theorem Kept.network_eq (h : Kept v) (arguments : List String) :
    Report.network v arguments = Report.network fresh arguments := by
  unfold Report.network
  cases Report.Query.parse arguments with
  | error e => rfl
  | ok q =>
    dsimp only
    rw [h.networks_eq]
    cases hd : Report.directory fresh Layout.networkPath with
    | error e => rfl
    | ok d =>
      have hwalk := walk_of_directory hd
      rw [components_networkPath] at hwalk
      have hchildren := h.keeps.childrenOf_eq ((readDirectories_paved _ (by decide)).2 d hwalk)
      simp only [Except.map, Report.networkLines, hchildren]

/-! ## Sessions -/

variable {now : Instant} {colorOutput : Bool} {saveFault : Option String} {h : Host}

theorem Reached.moves_fresh (hr : Reached (boot now colorOutput saveFault) h) :
    fresh.tree.Moves h.volume.tree := by
  have hvol := volume_boot now colorOutput saveFault
  rw [← hvol]
  exact hr.moves (hvol ▸ sound_fresh)

theorem Reached.kept (hr : Reached (boot now colorOutput saveFault) h) : Kept h.volume :=
  .of_moves hr.moves_fresh

/--
**No session alters the system.**

Whatever is typed and read in a session, a node of the fresh system is found again under its
number as it was, unless it lies below `/users/user`; only the list of colours may have other
contents, and `/users/user` other children. Every page of help is therefore the same as at the
start, and so is every report on the machine.
-/
theorem system_untouched (now : Instant) (colorOutput : Bool) (saveFault : Option String) {h : Host}
    (hr : Reached (boot now colorOutput saveFault) h) :
    let start := (boot now colorOutput saveFault).volume
    h.volume.tree.root = start.tree.root ∧
      (∀ id n, start.tree.get? id = some n → (zone n).Keeps n (h.volume.tree.get? id)) ∧
      (∀ c, Help.page h.volume c = Help.page start c) ∧
      Report.hardware h.volume = Report.hardware start ∧
      ∀ arguments, Report.network h.volume arguments = Report.network start arguments := by
  intro start
  have hkept := hr.kept
  have hstart : start = fresh := volume_boot now colorOutput saveFault
  rw [hstart]
  exact ⟨hkept.root, hkept.keeps, hkept.page_eq, hkept.hardware_eq, hkept.network_eq⟩

/-- Lines of someone who would like to do harm. -/
def vandal : List String := [
  "cd /system/config", "edit color.conf", "none:here", ".", "df color.conf", "chp color.conf 000000",
  "cd /", "dd system -r", "dd users -r", "cd /users/user", "dd home -r", "dd config --recurse"]

/-- The hostile session leaves the system as it was. -/
theorem system_untouched_by_vandal :
    let start := boot ⟨0, 0⟩ true none
    let h := (start.run true (vandal.map .line)).host
    Reached start h ∧
      h.volume.tree.root = start.volume.tree.root ∧
      (∀ id n, start.volume.tree.get? id = some n → (zone n).Keeps n (h.volume.tree.get? id)) ∧
      (∀ c, Help.page h.volume c = Help.page start.volume c) ∧
      Report.hardware h.volume = Report.hardware start.volume ∧
      ∀ arguments, Report.network h.volume arguments = Report.network start.volume arguments := by
  intro start h
  have hr : Reached start h := .run true (vandal.map .line) .start
  exact ⟨hr, system_untouched ⟨0, 0⟩ true none hr⟩

end Host

end TermShell
