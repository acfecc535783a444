import TermShell.Proofs.Tree.Views
import TermShell.Proofs.Tree.Walks
import TermShell.Proofs.Volume

/-!
# What a path typed by the user means

There are two ways to look a path up. A walk takes the path as it is. For a path typed by the user
it is decided first whether it is a shorthand, absolute or relative, and only then is there a walk.
Two of the shorthands, `root` and `~`, are ordinary names for a walk; for all other paths without
blanks at their ends the two ways come to the same (`resolvers_agree`).

Blanks at the ends matter. The first attempt, from the current directory, is made with the trimmed
path; the second one, from the root, with the path as it was typed, where the blanks are part of its
components. So only the first attempt is indifferent to them (`resolveDirectory_trim_iff`). In a
tree in which no name holds a blank the second attempt is then in vain.
-/

namespace TermShell

namespace Tree

variable {t : Tree}

theorem findDirectory_rootNode (t : Tree) (path : String) :
    t.findDirectory t.rootNode path = t.walk t.rootNode (Path.components path) := by
  rw [findDirectory, origin_rootNode]

theorem resolveDirectory_trim (t : Tree) (path : String) :
    t.resolveDirectory (Text.trim path) = t.resolveDirectory path := by
  rw [resolveDirectory, Path.classify_trim, resolveDirectory]

/-- **Whatever a path is taken for, it leads where a walk along it does**, if it is trimmed and none
of the two shorthands that a walk does not know. -/
theorem Sound.resolveDirectory_eq (ht : t.Sound) {path : String} (htrim : Text.trim path = path)
    (hroot : Text.foldCase path ≠ "root") (hhome : Text.foldCase path ≠ "~") :
    t.resolveDirectory path = t.findDirectory t.currentDirectory path := by
  have hhere := (directory?_eq_some_iff.mp ht.directory?_currentDirectory).2
  have htop := (directory?_eq_some_iff.mp ht.directory?_rootNode).2
  have hcases := Path.classify_cases path
  rw [htrim] at hcases
  rw [resolveDirectory, findDirectory, origin]
  rcases hcases with
    ⟨hword, _⟩ | ⟨hword, _⟩ | ⟨rfl, he⟩ | ⟨rfl, he⟩ | ⟨habsolute, ⟨hnil, he⟩ | he⟩ | ⟨hrelative, he⟩
  · exact absurd hword hroot
  · exact absurd hword hhome
  · have hdot : Path.components "." = ["."] := by decide +kernel
    rw [he, if_neg (by decide), hdot, walk, if_pos hhere]
    rfl
  · have hdots : Path.components ".." = [".."] := by decide +kernel
    rw [he, if_neg (by decide), hdots, walk, if_pos hhere]
    rfl
  · rw [he, if_pos habsolute, hnil, walk, if_pos htop]
    rfl
  · rw [he, if_pos habsolute, aim]
  · rw [he, if_neg (by simp [hrelative]), aim]

/-! ## Names without blanks -/

/-- No name in the tree holds a blank. -/
def Unspaced (t : Tree) : Prop :=
  ∀ id n, t.get? id = some n → ∀ c ∈ n.fullName.toList, Text.isBlank c = false

/-- In such a tree a component with a blank in it leads nowhere. -/
theorem Unspaced.enter_eq_none (h : t.Unspaced) {component : String} {c : Char}
    (hc : c ∈ component.toList) (hblank : Text.isBlank c = true) (here : Node) :
    t.enter here component = none := by
  refine Option.eq_none_iff_forall_not_mem.mpr fun d hd => ?_
  have hsolid : ∀ word : String, word.toList.any Text.isBlank = false → component ≠ word := by
    rintro word hword rfl
    exact List.any_eq_false.mp hword c hc hblank
  rcases enter_cases hd with ⟨hdot, _⟩ | ⟨hdots, _⟩ | ⟨_, _, hfind, hdir⟩
  · exact hsolid "." (by decide) hdot
  · exact hsolid ".." (by decide) hdots
  · -- a directory answers to its name alone
    obtain ⟨hget, _, _, hanswers⟩ := of_findChild hfind
    have hname := (Node.called_iff_of_isDirectory hdir).mp (Node.answersTo_iff.mp hanswers)
    rw [← Node.fullName_of_isDirectory hdir] at hname
    refine hsolid d.fullName (List.any_eq_false.mpr fun c hc => ?_) hname.symm
    simp [h d.id d hget c hc]

theorem Unspaced.walk_eq_none (h : t.Unspaced) {components : List String} {component : String}
    (hmem : component ∈ components) {c : Char} (hc : c ∈ component.toList)
    (hblank : Text.isBlank c = true) (start : Node) : t.walk start components = none := by
  have hstuck : components.foldlM t.enter start = none := by
    induction components generalizing start with
    | nil => exact absurd hmem (by simp)
    | cons first rest ih =>
      rw [List.foldlM_cons]
      rcases List.mem_cons.mp hmem with rfl | hrest
      · rw [h.enter_eq_none hc hblank start]
        rfl
      · cases t.enter start first with
        | none => rfl
        | some next => exact ih hrest next
  rw [walk, hstuck]
  split <;> rfl

/-- **A path with blanks at its ends leads nowhere** in such a tree, if it is walked as it is. -/
theorem Unspaced.findDirectory_eq_none (h : t.Unspaced) {path : String}
    (htrim : Text.trim path ≠ path) (start : Node) : t.findDirectory start path = none := by
  obtain ⟨c, hc, hblank⟩ := Text.exists_isBlank_of_trim_ne htrim
  -- a blank is no slash, so it is found in one of the components
  have hkept : c ∈ (Path.components path).flatMap String.toList := by
    rw [Path.flatMap_components]
    refine List.mem_filter.mpr ⟨hc, bne_iff_ne.mpr ?_⟩
    rintro rfl
    exact absurd hblank (by decide)
  obtain ⟨component, hmem, hcomponent⟩ := List.mem_flatMap.mp hkept
  exact h.walk_eq_none hmem hcomponent hblank _

end Tree

namespace Volume

theorem resolveDirectory_of_relative (v : Volume) {path : String} {cs : List String}
    (h : Path.classify path = .relative cs) :
    v.resolveDirectory path =
      (v.tree.walk v.tree.currentDirectory cs).or (v.tree.findDirectory v.tree.rootNode path) := by
  rw [resolveDirectory, Tree.resolveDirectory, h, Tree.aim]

/-- A path that is not relative is looked up once. -/
theorem resolveDirectory_of_not_relative (v : Volume) {path : String}
    (h : ∀ cs, Path.classify path ≠ .relative cs) :
    v.resolveDirectory path = v.tree.resolveDirectory path := by
  rw [resolveDirectory]
  split
  · rename_i cs hcs
    exact absurd hcs (h cs)
  · exact Option.or_none

/--
**Blanks at the ends of a path matter to the second attempt, and to no other.**

The first attempt gives the same with the blanks and without them. If the path is relative and that
attempt fails, the path is walked from the root with its blanks, and then its components are others
than those of the trimmed path, unless there are no blanks. So the two paths mean the same exactly
if the first attempt is the only one or succeeds, or the two walks from the root happen to agree.
Where no name holds a blank, a path with blanks around it means what the first attempt finds.
-/
theorem resolveDirectory_trim_iff (v : Volume) (path : String) :
    v.tree.resolveDirectory (Text.trim path) = v.tree.resolveDirectory path ∧
    (v.resolveDirectory (Text.trim path) = v.resolveDirectory path ↔
      ∀ cs, Path.classify path = .relative cs → v.tree.walk v.tree.currentDirectory cs = none →
        v.tree.walk v.tree.rootNode cs =
          v.tree.walk v.tree.rootNode (Path.components path)) ∧
    ∀ cs, Path.classify path = .relative cs →
      v.resolveDirectory path = (v.tree.walk v.tree.currentDirectory cs).or
        (v.tree.walk v.tree.rootNode (Path.components path)) ∧
      (cs = Path.components path ↔ Text.trim path = path) ∧
      (v.tree.Unspaced → Text.trim path ≠ path →
        v.resolveDirectory path = v.tree.walk v.tree.currentDirectory cs) := by
  refine ⟨v.tree.resolveDirectory_trim path, ?_, fun cs hcs => ⟨?_, ?_, fun hnames htrim => ?_⟩⟩
  · by_cases hrelative : ∃ cs, Path.classify path = .relative cs
    · obtain ⟨cs, hcs⟩ := hrelative
      have htrimmed : Path.classify (Text.trim path) = .relative cs := by
        rw [Path.classify_trim, hcs]
      rw [v.resolveDirectory_of_relative htrimmed, v.resolveDirectory_of_relative hcs,
        Tree.findDirectory_rootNode, Tree.findDirectory_rootNode,
        ← Path.eq_components_of_classify hcs]
      cases hfirst : v.tree.walk v.tree.currentDirectory cs with
      | some d => simp [hcs, hfirst]
      | none => simp [hcs, hfirst]
    · have hnot : ∀ cs, Path.classify path ≠ .relative cs := fun cs hcs => hrelative ⟨cs, hcs⟩
      have hnot' : ∀ cs, Path.classify (Text.trim path) ≠ .relative cs := by
        rwa [Path.classify_trim]
      rw [v.resolveDirectory_of_not_relative hnot', v.resolveDirectory_of_not_relative hnot,
        v.tree.resolveDirectory_trim]
      exact iff_of_true rfl fun cs hcs => absurd hcs (hnot cs)
  · rw [v.resolveDirectory_of_relative hcs, Tree.findDirectory_rootNode]
  · rw [Path.eq_components_of_classify hcs, Path.components_trim_iff]
  · rw [v.resolveDirectory_of_relative hcs, hnames.findDirectory_eq_none htrim, Option.or_none]

/-- The user is at home and asks for a directory at the top, with a blank before its name. Without
the blank it would be found. -/
theorem resolveDirectory_trim_iff_of_system :
    ∃ cs, Path.classify " system" = .relative cs ∧ standard.tree.Unspaced ∧
      Text.trim " system" ≠ " system" ∧ standard.resolveDirectory " system" = none ∧
      ¬ standard.resolveDirectory (Text.trim " system") = standard.resolveDirectory " system" := by
  have hcs : Path.classify " system" = .relative ["system"] := by decide +kernel
  have hnames : standard.tree.Unspaced := by
    have hall : ∀ n ∈ standard.tree.arena.nodes, n.fullName.toList.any Text.isBlank = false := by
      decide +kernel
    intro id n hn c hc
    exact Bool.eq_false_iff.mpr (List.any_eq_false.mp (hall n (Arena.mem_of_get? hn)) c hc)
  have htrim : Text.trim " system" ≠ " system" := by decide +kernel
  have hfirst : standard.tree.walk standard.tree.currentDirectory ["system"] = none := by
    decide +kernel
  have hfound : standard.tree.walk standard.tree.rootNode ["system"] ≠
      standard.tree.walk standard.tree.rootNode (Path.components " system") := by decide +kernel
  obtain ⟨_, hiff, hrelative⟩ := resolveDirectory_trim_iff standard " system"
  refine ⟨_, hcs, hnames, htrim, ?_, fun hsame => hfound (hiff.mp hsame _ hcs hfirst)⟩
  rw [(hrelative _ hcs).2.2 hnames htrim, hfirst]

/-- So it is not true that blanks around a path make no difference. -/
theorem padded_path_not_found :
    ∃ d, standard.resolveDirectory (Text.trim " system ") = some d ∧
      standard.resolveDirectory " system " = none := by
  have hfound : (standard.resolveDirectory (Text.trim " system ")).isSome = true := by
    decide +kernel
  obtain ⟨d, hd⟩ := Option.isSome_iff_exists.mp hfound
  exact ⟨d, hd, by decide +kernel⟩

/--
**The ways to look a path up agree.**

In an intact tree with a current directory, let a path have no blanks at its ends and be none of the
shorthands `root` and `~`, in whatever letter case. Then the directory that the path means, seen
from the current directory, is the one at the end of a walk along it, whatever slashes and dots
there are in it; and a volume that has this tree gives that one, or else the one at the end of a walk
from the root.
-/
theorem resolvers_agree {t : Tree} (ht : t.Intact)
    (hcurrent : ∃ d, t.directory? t.current = some d) {path : String}
    (htrim : Text.trim path = path) (hroot : Text.foldCase path ≠ "root")
    (hhome : Text.foldCase path ≠ "~") :
    t.resolveDirectory path = t.findDirectory t.currentDirectory path ∧
      ∀ v : Volume, v.tree = t → v.resolveDirectory path =
        (t.findDirectory t.currentDirectory path).or (t.findDirectory t.rootNode path) := by
  have hwalk := (Tree.sound_of_current ht hcurrent).resolveDirectory_eq htrim hroot hhome
  refine ⟨hwalk, ?_⟩
  rintro v rfl
  have hcases := Path.classify_cases path
  rw [htrim] at hcases
  rcases hcases with
    ⟨hword, _⟩ | ⟨hword, _⟩ | ⟨_, he⟩ | ⟨_, he⟩ | ⟨habsolute, he⟩ | ⟨_, he⟩
  · exact absurd hword hroot
  · exact absurd hword hhome
  · -- a dot and two dots always mean something
    rw [resolveDirectory, ← hwalk, Tree.resolveDirectory, he, Tree.aim, Option.some_or,
      Option.some_or]
  · rw [resolveDirectory, ← hwalk, Tree.resolveDirectory, he, Tree.aim, Option.some_or,
      Option.some_or]
  · -- both walks begin at the root, and there is no second attempt
    have hnot : ∀ cs, Path.classify path ≠ .relative cs := by
      rcases he with ⟨_, he⟩ | he <;> simp [he]
    have hsame : v.tree.findDirectory v.tree.rootNode path =
        v.tree.findDirectory v.tree.currentDirectory path := by
      rw [Tree.findDirectory, Tree.findDirectory, Tree.origin, Tree.origin, if_pos habsolute,
        if_pos habsolute]
    rw [v.resolveDirectory_of_not_relative hnot, hwalk, hsame, Option.or_self]
  · rw [resolveDirectory, hwalk, he]

/-- From home the devices are found at the second attempt only. -/
theorem resolvers_agree_on_devices :
    let path := "system//./device/"
    Layout.tree.Intact ∧ (∃ d, Layout.tree.directory? Layout.tree.current = some d) ∧
      Text.trim path = path ∧ Text.foldCase path ≠ "root" ∧ Text.foldCase path ≠ "~" ∧
      Layout.tree.resolveDirectory path = none ∧
      Layout.tree.findDirectory Layout.tree.currentDirectory path = none ∧
      standard.resolveDirectory path = Layout.tree.findDirectory Layout.tree.rootNode path ∧
      (standard.resolveDirectory path).map Node.name = some "device" := by
  intro path
  have hs := Tree.sound_standard
  have htrim : Text.trim path = path := by decide +kernel
  have hroot : Text.foldCase path ≠ "root" := by decide +kernel
  have hhome : Text.foldCase path ≠ "~" := by decide +kernel
  have hnone : Layout.tree.findDirectory Layout.tree.currentDirectory path = none := by
    decide +kernel
  obtain ⟨htree, hvolume⟩ := resolvers_agree hs.intact hs.current htrim hroot hhome
  have hsecond := hvolume standard rfl
  rw [hnone, Option.none_or] at hsecond
  refine ⟨hs.intact, hs.current, htrim, hroot, hhome, htree.trans hnone, hnone, hsecond, ?_⟩
  rw [hsecond]
  decide +kernel

end Volume

end TermShell
