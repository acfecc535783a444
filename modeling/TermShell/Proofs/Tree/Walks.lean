import TermShell.Proofs.Names
import TermShell.Proofs.Tree.History
import TermShell.Proofs.Tree.Places
import TermShell.Proofs.Tree.Trails

/-!
# Walking and spelling

A path can be settled without a tree: keep a stack of names, let a dot do nothing, let two dots
take the last name away, and push any other component. A walk does more than that, since it
looks up children and follows links. But if it succeeds, the names on the way down to where it
ends are those on the stack (`findDirectory_lexical`). So two walks that settle to the same
stack end at places that are spelled alike, whatever detours they make.

The invariant is that the stack holds the names of the trail of the current node. A step down
lengthens both, and a step up drops the last of both; at the root, where nothing can be dropped,
the walk stays because the root has nothing above it.
-/

namespace TermShell

namespace Path

/-- What a component does to a stack of names. -/
def turn (stack : List String) (component : String) : List String :=
  if component = "." then stack
  else if component = ".." then stack.dropLast
  else stack ++ [component]

/-- The stack of names that is left when a path has been processed from left to right. A path
that begins with a slash begins with an empty stack. -/
def settle (stack : List String) (path : String) : List String :=
  (components path).foldl turn (if isAbsolute path then [] else stack)

end Path

namespace Tree

variable {t : Tree}

/-! ## Steps -/

/-- A step stays, goes up, or goes down to a directory of that name. -/
theorem enter_cases {here next : Node} {component : String}
    (h : t.enter here component = some next) :
    (component = "." ∧ next = here) ∨ (component = ".." ∧ next = t.parentOf here) ∨
      (component ≠ "." ∧ component ≠ ".." ∧ t.findChild here component anyKind = some next ∧
        next.isDirectory = true) := by
  unfold enter at h
  split at h
  · rename_i hdot
    exact .inl ⟨hdot, (Option.some.inj h).symm⟩
  · rename_i hdot
    split at h
    · rename_i hdots
      exact .inr (.inl ⟨hdots, (Option.some.inj h).symm⟩)
    · rename_i hdots
      obtain ⟨hfind, hdir⟩ := Option.filter_eq_some_iff.mp h
      exact .inr (.inr ⟨hdot, hdots, hfind, hdir⟩)

theorem enter_of_name {component : String} (hdot : component ≠ ".") (hdots : component ≠ "..")
    (t : Tree) (here : Node) :
    t.enter here component = (t.findChild here component anyKind).filter Node.isDirectory := by
  rw [enter, if_neg hdot, if_neg hdots]

namespace Rooted

theorem parentOf_root (h : t.Rooted) {r : Node} (hr : t.get? t.root = some r) :
    t.parentOf r = r := by
  obtain ⟨r', hr', _, hnone⟩ := h.root
  obtain rfl := Option.some.inj (hr.symm.trans hr')
  rw [parentOf, hnone, Option.bind_none, Option.getD_none, rootNode_of_get? hr]

/-- Going up drops the last node of the trail. -/
theorem trail_parentOf (h : t.Rooted) {trail : List Node} {n : Node} (ht : t.Trail trail n) :
    t.Trail trail.dropLast (t.parentOf n) := by
  cases ht with
  | root hr =>
    rw [h.parentOf_root hr]
    exact .root hr
  | step habove hn hc =>
    rw [h.parentOf_of_trail habove hn hc, List.dropLast_concat]
    exact habove

/-- **A step does to the trail what its component does to the stack of names.** -/
theorem trail_enter (h : t.Rooted) {trail : List Node} {here next : Node} {component : String}
    (ht : t.Trail trail here) (henter : t.enter here component = some next) :
    ∃ trail', t.Trail trail' next ∧
      trail'.map Node.name = Path.turn (trail.map Node.name) component := by
  rcases enter_cases henter with ⟨rfl, rfl⟩ | ⟨rfl, rfl⟩ | ⟨hdot, hdots, hfind, hdir⟩
  · exact ⟨trail, ht, rfl⟩
  · exact ⟨trail.dropLast, h.trail_parentOf ht, by simp [Path.turn, List.map_dropLast]⟩
  · obtain ⟨hnext, hc, _, hanswers⟩ := of_findChild hfind
    -- what has been found is a directory, and these answer to one name only
    have hname : next.name = component :=
      (Node.called_iff_of_isDirectory hdir).mp (Node.answersTo_iff.mp hanswers)
    exact ⟨trail ++ [next], .step ht hnext hc, by simp [Path.turn, hdot, hdots, hname]⟩

/-! ## Walks -/

/-- **A walk does to the trail what its components do to the stack of names.** -/
theorem trail_walk (h : t.Rooted) {components : List String} {trail : List Node} {start d : Node}
    (ht : t.Trail trail start) (hwalk : components.foldlM t.enter start = some d) :
    ∃ trail', t.Trail trail' d ∧
      trail'.map Node.name = components.foldl Path.turn (trail.map Node.name) := by
  -- the induction is on the components, and start, trail and stack move along
  induction components generalizing start trail with
  | nil => exact ⟨trail, Option.some.inj hwalk ▸ ht, rfl⟩
  | cons component rest ih =>
    obtain ⟨next, henter, hrest⟩ := Option.bind_eq_some_iff.mp hwalk
    obtain ⟨trail', ht', hturn⟩ := h.trail_enter ht henter
    obtain ⟨there, hthere, hsettle⟩ := ih ht' hrest
    exact ⟨there, hthere, by rw [hsettle, hturn, List.foldl_cons]⟩

end Rooted

theorem isDirectory_parentOf (hroot : t.rootNode.isDirectory = true) (n : Node) :
    (t.parentOf n).isDirectory = true := by
  unfold parentOf
  cases hp : n.parent.bind t.directory? with
  | none => exact hroot
  | some d =>
    obtain ⟨p, _, hd⟩ := Option.bind_eq_some_iff.mp hp
    exact (directory?_eq_some_iff.mp hd).2

theorem isDirectory_walk (hroot : t.rootNode.isDirectory = true) {components : List String}
    {start d : Node} (hstart : start.isDirectory = true)
    (hwalk : components.foldlM t.enter start = some d) : d.isDirectory = true := by
  induction components generalizing start with
  | nil => exact Option.some.inj hwalk ▸ hstart
  | cons component rest ih =>
    obtain ⟨next, henter, hrest⟩ := Option.bind_eq_some_iff.mp hwalk
    refine ih ?_ hrest
    rcases enter_cases henter with ⟨_, rfl⟩ | ⟨_, rfl⟩ | ⟨_, _, _, hdir⟩
    · exact hstart
    · exact isDirectory_parentOf hroot start
    · exact hdir

/-- **A walk along two lists of components is a walk along the one and then along the other.** -/
theorem walk_append (hroot : t.rootNode.isDirectory = true) (start : Node)
    (front back : List String) :
    t.walk start (front ++ back) = (t.walk start front).bind fun d => t.walk d back := by
  by_cases hstart : start.isDirectory = true
  · rw [walk, walk, if_pos hstart, if_pos hstart, List.foldlM_append]
    -- the second walk begins at a directory, because the first one ends at one
    refine Option.bind_congr fun d hd => ?_
    rw [walk, if_pos (isDirectory_walk hroot hstart hd)]
  · rw [walk, walk, if_neg hstart, if_neg hstart, Option.bind_none]

/-! ## Spelling -/

/-- On the trail of a directory full names are bare names. -/
theorem Trail.map_fullName {trail : List Node} {d : Node} (h : t.Trail trail d)
    (hd : d.isDirectory = true) : trail.map Node.fullName = trail.map Node.name :=
  List.map_congr_left fun a ha => Node.fullName_of_isDirectory (h.isDirectory hd a ha)

theorem Rooted.path_trail (h : t.Rooted) {trail : List Node} {d : Node} (ht : t.Trail trail d)
    (hd : d.isDirectory = true) :
    t.path d = Path.rootText ++ String.intercalate "/" (trail.map Node.name) := by
  rw [path, spell, h.names_trail ht, ht.map_fullName hd]

/--
**Looking a path up and spelling the result is settling the path.**

In a tree that passes the check and has a directory for its root, let a path lead from the
directory `s` to the directory `d`. Then the names on the way down to `d` are what the path
leaves of the names on the way down to `s`, and `d` is spelled by them. Dots, double dots and
extra slashes may stand anywhere in the path.
-/
theorem findDirectory_lexical {r s d : Node} {p : String} (ht : t.Intact)
    (hr : t.directory? t.root = some r) (hs : t.directory? s.id = some s)
    (hfind : t.findDirectory s p = some d) :
    ∃ here there, t.Trail here s ∧ t.Trail there d ∧
      there.map Node.name = Path.settle (here.map Node.name) p ∧
      t.path d = "/" ++ String.intercalate "/" (Path.settle (here.map Node.name) p) := by
  have h := intact_iff_rooted.mp ht
  obtain ⟨hrget, hrdir⟩ := directory?_eq_some_iff.mp hr
  obtain ⟨hsget, hsdir⟩ := directory?_eq_some_iff.mp hs
  have hrootNode : t.rootNode = r := rootNode_of_get? hrget
  obtain ⟨here, hhere⟩ := h.exists_trail hsget
  -- a slash in front sends both the walk and the stack back to the root
  have horigin : ∃ trail, t.Trail trail (t.origin s p) ∧ (t.origin s p).isDirectory = true ∧
      trail.map Node.name = if Path.isAbsolute p then [] else here.map Node.name := by
    unfold origin
    split
    · exact ⟨[], hrootNode ▸ .root hrget, hrootNode ▸ hrdir, rfl⟩
    · exact ⟨here, hhere, hsdir, rfl⟩
  obtain ⟨trail, htrail, hdir, hstack⟩ := horigin
  rw [findDirectory, walk, if_pos hdir] at hfind
  obtain ⟨there, hthere, hsettle⟩ := h.trail_walk htrail hfind
  have hd := isDirectory_walk (hrootNode ▸ hrdir) hdir hfind
  have hnames : there.map Node.name = Path.settle (here.map Node.name) p := by
    rw [hsettle, hstack, Path.settle]
  exact ⟨here, there, hhere, hthere, hnames, hnames ▸ h.path_trail hthere hd⟩

/-- A way from the home directory to the configuration of the system, with detours. -/
def detour : String := ".././/../../..//users/../system/config/"

/-- The detour leads somewhere, and so it is spelled as it settles. -/
theorem findDirectory_lexical_detour :
    ∃ r s d, Layout.tree.Intact ∧ Layout.tree.directory? Layout.tree.root = some r ∧
      Layout.tree.directory? s.id = some s ∧ Layout.tree.findDirectory s detour = some d ∧
      ∃ here there, Layout.tree.Trail here s ∧ Layout.tree.Trail there d ∧
        there.map Node.name = Path.settle (here.map Node.name) detour ∧
        Layout.tree.path d =
          "/" ++ String.intercalate "/" (Path.settle (here.map Node.name) detour) := by
  obtain ⟨r, hr⟩ := sound_standard.root
  have hs := sound_standard.directory?_currentDirectory
  obtain ⟨d, hd⟩ : ∃ d, Layout.tree.findDirectory Layout.tree.currentDirectory detour = some d :=
    Option.isSome_iff_exists.mp (by decide +kernel)
  exact ⟨r, _, d, sound_standard.intact, hr, hs, hd,
    findDirectory_lexical sound_standard.intact hr hs hd⟩

example : Path.settle ["users", "user", "home"] detour = ["system", "config"] := by decide +kernel

end Tree

end TermShell
