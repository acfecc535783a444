import TermShell.Proofs.Path.Relative
import TermShell.Proofs.Volume.Resolve
import TermShell.Proofs.Volume.Usage

/-!
# Relative paths

The relative path of a node is what a user in the current directory is shown of it. Two things are
expected of it: that it leads from there to where the path leads from the root, and that it is a
piece of the path for what lies at or below the current directory, and the whole path for all else.

The first is true if the current directory can be found at all (`relative_path_leads_back_iff`). A
file can have the path of the current directory; then its relative path is empty and leads to no
file. This is the only exception.

The second is not true. Whether a node lies below the current directory is decided by comparing
paths, and nothing keeps names apart, so that another directory can have the path of the current
one. What lies below that one is shown as if it were here (`relative_path_shortened_iff`).
-/

namespace TermShell

namespace Tree

variable {t : Tree}

/-! ## The way back -/

theorem findFile_of_no_components {path : String} (h : Path.components path = []) (t : Tree)
    (start : Node) : t.findFile start path = none := by
  rw [findFile, h]
  rfl

section Continues

variable (ht : t.Sound) {base path rest : String} {d : Node}
  (hbase : t.findDirectory t.rootNode base = some d)
include ht hbase

/-- The walk from the root comes through the place to which `base` leads. -/
theorem Sound.walk_behind (components : List String) :
    t.walk t.rootNode (Path.components base ++ components) = t.walk d components := by
  have hroot := (directory?_eq_some_iff.mp ht.directory?_rootNode).2
  rw [findDirectory_rootNode] at hbase
  rw [walk_append hroot, hbase, Option.bind_some]

variable (h : Path.Continues base path rest)
include h

/-- **The rest of a path leads to the same directory.** -/
theorem Sound.findDirectory_continues :
    t.findDirectory d (Text.dropLeading Path.separator rest) =
      t.findDirectory t.rootNode path := by
  rw [findDirectory_rootNode, h.components_eq, ht.walk_behind hbase, findDirectory, origin,
    Path.isAbsolute_dropLeading, Path.components_dropLeading]
  rfl

/-- **The rest of a path leads to the same file**, if there is a rest. -/
theorem Sound.findFile_continues (hrest : Path.components rest ≠ []) :
    t.findFile d (Text.dropLeading Path.separator rest) = t.findFile t.rootNode path := by
  rw [findFile, findFile, origin_rootNode, h.components_eq, List.getLast?_append_of_ne_nil _ hrest,
    List.dropLast_append_of_ne_nil hrest, ht.walk_behind hbase, origin,
    Path.isAbsolute_dropLeading, Path.components_dropLeading]
  rfl

end Continues

/-- Nodes whose paths have the same components have the same path. -/
theorem Rooted.path_eq_of_components (h : t.Rooted) (hnamed : t.Named) {m n : Node}
    (hm : t.get? m.id = some m) (hn : t.get? n.id = some n)
    (hsame : Path.components (t.path m) = Path.components (t.path n)) : t.path m = t.path n := by
  obtain ⟨trail, htrail⟩ := h.exists_trail hm
  obtain ⟨trail', htrail'⟩ := h.exists_trail hn
  rw [h.components_path hnamed htrail, h.components_path hnamed htrail'] at hsame
  rw [path, path, h.names_trail htrail, h.names_trail htrail', hsame]

section Current

variable (ht : t.Sound)
  (hcurrent : t.findDirectory t.rootNode t.currentPath = some t.currentDirectory)
include ht hcurrent

theorem Sound.findDirectory_relativePath (d : Node) :
    t.findDirectory t.currentDirectory (t.relativePath d) =
      t.findDirectory t.rootNode (t.path d) := by
  rcases t.relativePath_cases d with ⟨rest, hrest, he⟩ | ⟨_, he⟩
  · rw [he, ht.findDirectory_continues hcurrent hrest]
  · rw [he, findDirectory, findDirectory, origin_path, origin_path]

theorem Sound.findFile_relativePath_iff (hnamed : t.Named) (f : Node) :
    t.findFile t.currentDirectory (t.relativePath f) = some f ↔
      t.path f ≠ t.currentPath ∧ t.findFile t.rootNode (t.path f) = some f := by
  rcases t.relativePath_cases f with ⟨rest, hrest, he⟩ | ⟨hnot, he⟩
  · rw [he]
    by_cases hnil : Path.components rest = []
    · -- nothing is left that could name a file, and so the two paths are the same
      rw [findFile_of_no_components (by rwa [Path.components_dropLeading])]
      refine iff_of_false (by simp) fun hfound => hfound.1 ?_
      refine ht.rooted.path_eq_of_components hnamed (of_findFile hfound.2).1
        (directory?_eq_some_iff.mp ht.directory?_currentDirectory).1 ?_
      rw [hrest.components_eq, hnil, List.append_nil, currentPath]
    · rw [ht.findFile_continues hcurrent hrest hnil]
      refine (and_iff_right fun hsame => hnil ?_).symm
      rw [hsame] at hrest
      rw [(Path.Continues.refl _).unique hrest]
      rfl
  · rw [he, findFile, findFile, origin_path, origin_path]
    refine (and_iff_right fun hsame => hnot "" ?_).symm
    rw [hsame]
    exact .refl _

end Current

/-! ## Shortened paths -/

/-- **Below a node with the path of the current directory the names from there on are shown.** -/
theorem Rooted.relativePath_below (h : t.Rooted) (hnamed : t.Named) {above below : List Node}
    {a n : Node} (ha : t.Trail above a) (hn : t.Trail (above ++ below) n)
    (hpath : t.path a = t.currentPath) :
    t.relativePath n = String.intercalate "/" (below.map Node.fullName) := by
  have hbelow : ∀ name ∈ below.map Node.fullName, name ≠ "" ∧ Path.separator ∉ name.toList := by
    intro name hname
    refine h.names_of_trail hnamed hn name ?_
    rw [List.map_append]
    exact List.mem_append_right _ hname
  obtain ⟨rest, hrest, hdrop⟩ := Path.exists_continues_spelled (above.map Node.fullName) hbelow
  rw [← List.map_append, ← h.names_trail hn, ← h.names_trail ha] at hrest
  have hcontinues : Path.Continues t.currentPath (t.path n) rest := hpath ▸ hrest
  rcases t.relativePath_cases n with ⟨rest', hrest', he⟩ | ⟨hnot, _⟩
  · rw [he, hcontinues.unique hrest', hdrop]
  · exact absurd hcontinues (hnot rest)

/-- **A path that goes on from another one comes through a node with that other path.** -/
theorem Rooted.exists_of_continues (h : t.Rooted) (hnamed : t.Named) {c n : Node}
    (hc : t.get? c.id = some c) (hn : t.get? n.id = some n) {rest : String}
    (hrest : Path.Continues (t.path c) (t.path n) rest) :
    ∃ a k, t.get? a.id = some a ∧ t.climb k n.id = some a.id ∧ t.path a = t.path c := by
  obtain ⟨trail, htrail⟩ := h.exists_trail hn
  obtain ⟨front, hfront⟩ := h.exists_trail hc
  have hnames := hrest.components_eq
  rw [h.components_path hnamed htrail, h.components_path hnamed hfront] at hnames
  obtain ⟨above, below, rfl, habove, _⟩ := List.map_eq_append_iff.mp hnames
  obtain ⟨a, ha⟩ := htrail.exists_of_append
  refine ⟨a, below.length, ha.get?, h.climb_of_trail ha htrail, ?_⟩
  rw [path, path, h.names_trail ha, h.names_trail hfront, habove]

/-- The node `a`, from which `k` links lead down to `n`, has the path of the current directory. -/
structure NamesakeAbove (t : Tree) (k : Nat) (a n : Node) : Prop where
  there : t.get? a.id = some a
  climb : t.climb k n.id = some a.id
  path : t.path a = t.currentPath

/-- What is shown of a node below a namesake. -/
theorem NamesakeAbove.relativePath (h : t.Rooted) (hnamed : t.Named) {k : Nat} {a n : Node}
    (hn : t.get? n.id = some n) (ha : t.NamesakeAbove k a n) :
    ∃ above below, t.Trail above a ∧ t.Trail (above ++ below) n ∧ below.length = k ∧
      t.relativePath n = String.intercalate "/" (below.map Node.fullName) ∧
      Path.isAbsolute (t.relativePath n) = false ∧ (t.relativePath n = "" ↔ k = 0) := by
  obtain ⟨above, below, habove, htrail, hlength⟩ := h.trail_of_climb ha.there hn ha.climb
  have he := h.relativePath_below hnamed habove htrail ha.path
  have hnames := h.names_of_trail hnamed htrail
  rw [List.map_append, List.forall_mem_append] at hnames
  refine ⟨above, below, habove, htrail, hlength, he, ?_, ?_⟩
  · rw [he, Path.isAbsolute_intercalate hnames.2]
  · rw [he, ← hlength, List.length_eq_zero_iff]
    constructor
    · intro hempty
      have hspelled := Path.components_spelled hnames.2
      rw [hempty] at hspelled
      exact List.map_eq_nil_iff.mp hspelled.symm
    · rintro rfl
      rfl

/-- **A path is shown whole exactly if there is no namesake above.** -/
theorem Sound.relativePath_eq_path_iff (ht : t.Sound) (hnamed : t.Named) {n : Node}
    (hn : t.get? n.id = some n) :
    t.relativePath n = t.path n ↔ ¬ ∃ a k, t.NamesakeAbove k a n := by
  constructor
  · rintro hwhole ⟨a, k, ha⟩
    -- a whole path begins with a slash, and a shortened one does not
    obtain ⟨_, _, _, _, _, _, hrelative, _⟩ := ha.relativePath ht.rooted hnamed hn
    rw [hwhole, path, spell, Path.isAbsolute_spelled] at hrelative
    exact absurd hrelative (by simp)
  · intro hnone
    rcases t.relativePath_cases n with ⟨rest, hrest, _⟩ | ⟨_, he⟩
    · have hcurrent := (directory?_eq_some_iff.mp ht.directory?_currentDirectory).1
      obtain ⟨a, k, ha, hk, hpath⟩ := ht.rooted.exists_of_continues hnamed hcurrent hn hrest
      exact absurd ⟨a, k, ha, hk, hpath⟩ hnone
    · exact he

end Tree

namespace Volume

variable {v : Volume}

/--
**Relative paths lead from the current directory to where paths lead from the root.**

In whatever way a fresh volume has been used, let the current directory be found from the root
under its path. Then the relative path of a directory leads to it exactly if its path does. For a
file this is so as well, unless the file has the path of the current directory, in which case its
relative path does not lead to it.
-/
theorem relative_path_leads_back_iff (h : Used standard v)
    (hcurrent : v.tree.findDirectory v.tree.rootNode v.tree.currentPath =
      some v.tree.currentDirectory) :
    (∀ d, v.tree.findDirectory v.tree.currentDirectory (v.tree.relativePath d) = some d ↔
      v.tree.findDirectory v.tree.rootNode (v.tree.path d) = some d) ∧
    ∀ f, v.tree.findFile v.tree.currentDirectory (v.tree.relativePath f) = some f ↔
      v.tree.path f ≠ v.tree.currentPath ∧
        v.tree.findFile v.tree.rootNode (v.tree.path f) = some f := by
  obtain ⟨hsound, hnamed⟩ := h.sound_named
  refine ⟨fun d => ?_, hsound.findFile_relativePath_iff hcurrent hnamed⟩
  rw [hsound.findDirectory_relativePath hcurrent]

/-- The user has made a directory and a file of one name, has gone to the directory and has made a
file there. -/
def stocked : Volume := (Action.createFile "milk.txt").perform
  ((Action.setCurrentPath "notes").perform
    ((Action.createFile "notes").perform ((Action.createDirectory "notes").perform standard)))

/-- The directory made there. -/
def notes : Node := (Node.directory 54 Layout.home "notes" .userDefault).withChildren [56]

/-- The file with the name of the directory. -/
def notesFile : Node := .file 55 Layout.home "notes" none "" .userDefault

/-- The file in the directory. -/
def milk : Node := .file 56 54 "milk" (some "txt") "" .userDefault

/-- The directory and the file in it are found again. The file next to the directory would be found
from the root, but not from the directory, whose path it has. -/
theorem relative_path_leads_back_iff_stocked :
    Used standard stocked ∧
      stocked.tree.findDirectory stocked.tree.rootNode stocked.tree.currentPath =
        some stocked.tree.currentDirectory ∧
      stocked.tree.findDirectory stocked.tree.currentDirectory (stocked.tree.relativePath notes) =
        some notes ∧
      stocked.tree.relativePath milk = "milk.txt" ∧
      stocked.tree.findFile stocked.tree.currentDirectory (stocked.tree.relativePath milk) =
        some milk ∧
      stocked.tree.findFile stocked.tree.rootNode (stocked.tree.path notesFile) =
        some notesFile ∧
      ¬ stocked.tree.findFile stocked.tree.currentDirectory
        (stocked.tree.relativePath notesFile) = some notesFile := by
  have hused : Used standard stocked := .act _ (.act _ (.act _ (.act _ .start)))
  have hcurrent : stocked.tree.findDirectory stocked.tree.rootNode stocked.tree.currentPath =
      some stocked.tree.currentDirectory := by decide +kernel
  obtain ⟨hdirs, hfiles⟩ := relative_path_leads_back_iff hused hcurrent
  refine ⟨hused, hcurrent, (hdirs notes).mpr (by decide +kernel), by decide +kernel,
    (hfiles milk).mpr (by decide +kernel), by decide +kernel, fun hfound => ?_⟩
  exact ((hfiles notesFile).mp hfound).1 (by decide +kernel)

/--
**Which paths are shortened, and how.**

In whatever way a fresh volume has been used, the path of a node is shown whole exactly if no node
at or above it has the path of the current directory. If there is one, what is shown are the names
on the way down from there, with slashes between them and none in front, and nothing at all exactly
if there is no way to go. The current directory is such a node for all that lies at or below it.
-/
theorem relative_path_shortened_iff (h : Used standard v) {n : Node}
    (hn : v.tree.get? n.id = some n) :
    (∀ a k, v.tree.NamesakeAbove k a n →
      ∃ above below, v.tree.Trail above a ∧ v.tree.Trail (above ++ below) n ∧ below.length = k ∧
        v.tree.relativePath n = String.intercalate "/" (below.map Node.fullName) ∧
        Path.isAbsolute (v.tree.relativePath n) = false ∧
        (v.tree.relativePath n = "" ↔ k = 0)) ∧
    (v.tree.relativePath n = v.tree.path n ↔ ¬ ∃ a k, v.tree.NamesakeAbove k a n) := by
  obtain ⟨hsound, hnamed⟩ := h.sound_named
  exact ⟨fun a k ha => ha.relativePath hsound.rooted hnamed hn,
    hsound.relativePath_eq_path_iff hnamed hn⟩

/-- The user has made two directories of one name and has gone to the first of them. -/
def twins : Volume := (Action.setCurrentPath "notes").perform
  ((Action.createDirectory "notes").perform ((Action.createDirectory "notes").perform standard))

/-- The directory where the user is. -/
def twin : Node := .directory 54 Layout.home "notes" .userDefault

/-- The other one. -/
def otherTwin : Node := .directory 55 Layout.home "notes" .userDefault

/-- Nothing is shown of the other directory, and of the home directory the whole path. -/
theorem relative_path_shortened_iff_of_twins :
    let home := twins.tree.parentOf twin
    Used standard twins ∧ twins.tree.get? otherTwin.id = some otherTwin ∧
      twins.tree.NamesakeAbove 0 otherTwin otherTwin ∧ twins.tree.relativePath otherTwin = "" ∧
      twins.tree.get? home.id = some home ∧
      twins.tree.relativePath home = twins.tree.path home ∧
      ¬ ∃ a k, twins.tree.NamesakeAbove k a home := by
  intro home
  have hused : Used standard twins := .act _ (.act _ (.act _ .start))
  have hother : twins.tree.get? otherTwin.id = some otherTwin := by decide +kernel
  have hhome : twins.tree.get? home.id = some home := by decide +kernel
  have hnamesake : twins.tree.NamesakeAbove 0 otherTwin otherTwin :=
    ⟨hother, rfl, by decide +kernel⟩
  obtain ⟨_, _, _, _, _, _, _, hempty⟩ :=
    (relative_path_shortened_iff hused hother).1 _ _ hnamesake
  have hwhole : twins.tree.relativePath home = twins.tree.path home := by decide +kernel
  exact ⟨hused, hother, hnamesake, hempty.mpr rfl, hhome, hwhole,
    (relative_path_shortened_iff hused hhome).2.mp hwhole⟩

/-- So it is not true that the path of a node is shown whole if the node does not lie at or below
the current directory. -/
theorem other_twin_shown_as_current :
    Used standard twins ∧ twins.tree.currentDirectory = twin ∧
      twins.tree.get? otherTwin.id = some otherTwin ∧
      (∀ k, twins.tree.climb k otherTwin.id ≠ some twin.id) ∧
      twins.tree.relativePath otherTwin ≠ twins.tree.path otherTwin := by
  have hused : Used standard twins := .act _ (.act _ (.act _ .start))
  have htwin : twins.tree.get? twin.id = some twin := by decide +kernel
  have hother : twins.tree.get? otherTwin.id = some otherTwin := by decide +kernel
  have hrooted := hused.sound_named.1.rooted
  refine ⟨hused, by decide +kernel, hother, fun k hk => ?_, by decide +kernel⟩
  -- the first directory would lie on the way down to the second one, but it is empty
  obtain ⟨above, below, habove, htrail, _⟩ := hrooted.trail_of_climb htwin hother hk
  have hmem : twin ∈ above :=
    (hrooted.mem_trail_iff habove).mpr ⟨htwin, by decide +kernel, .refl⟩
  have hleads := (htrail.leads (List.mem_append_left below hmem)).2
  exact absurd (Tree.alone_of_childless htwin rfl hleads) (by decide)

end Volume

end TermShell
