import TermShell.Proofs.Tree.Upkeep
import TermShell.Tree.Lookup

/-!
# Where a walk may end

A lookup works with nodes, and a change with numbers. That the two speak of the same thing is
not free: the node has to be the one its number stands for. In a sound tree every walk stays on
such nodes, whatever dots and names it is made of, because each single step does.
-/

namespace TermShell.Tree

variable {t : Tree}

/-! ## Children -/

theorem mem_childrenOf {d n : Node} :
    n ∈ t.childrenOf d ↔ t.get? n.id = some n ∧ n.id ∈ d.children := by
  constructor
  · intro h
    obtain ⟨c, hc, hn⟩ := List.mem_filterMap.mp h
    obtain rfl := id_of_get? hn
    exact ⟨hn, hc⟩
  · intro hex
    obtain ⟨hn, hc⟩ := hex
    exact List.mem_filterMap.mpr ⟨n.id, hc, hn⟩

/-- What is found among the children of a directory is one of them, is of the wanted kind and
answers to the name. -/
theorem of_findChild {d n : Node} {name : String} {wanted : Node → Bool}
    (h : t.findChild d name wanted = some n) :
    t.get? n.id = some n ∧ n.id ∈ d.children ∧ wanted n = true ∧ n.answersTo name = true := by
  have hmem := List.mem_of_find?_eq_some h
  have hwanted := List.find?_some h
  obtain ⟨hn, hc⟩ := mem_childrenOf.mp hmem
  simp only [Bool.and_eq_true] at hwanted
  exact ⟨hn, hc, hwanted⟩

/-- What a path to a file finds is a file of the tree. -/
theorem of_findFile {start n : Node} {path : String} (h : t.findFile start path = some n) :
    t.get? n.id = some n ∧ n.isFile = true := by
  unfold findFile at h
  split at h
  · exact absurd h (by simp)
  · obtain ⟨d, _, hfound⟩ := Option.bind_eq_some_iff.mp h
    obtain ⟨hget, _, hfile, _⟩ := of_findChild hfound
    exact ⟨hget, hfile⟩

/-! ## Steps -/

theorem Sound.directory?_rootNode (ht : t.Sound) :
    t.directory? t.rootNode.id = some t.rootNode := by
  have h := ht.directory?_root
  rwa [id_of_get? (directory?_eq_some_iff.mp h).1]

theorem Sound.directory?_currentDirectory (ht : t.Sound) :
    t.directory? t.currentDirectory.id = some t.currentDirectory := by
  have h := ht.directory?_current
  rwa [id_of_get? (directory?_eq_some_iff.mp h).1]

/-- The directory above a node is one, if only because the root is. -/
theorem Sound.directory?_parentOf (ht : t.Sound) (n : Node) :
    t.directory? (t.parentOf n).id = some (t.parentOf n) := by
  unfold parentOf
  cases hp : n.parent.bind t.directory? with
  | none => exact ht.directory?_rootNode
  | some d =>
    obtain ⟨p, _, hd⟩ := Option.bind_eq_some_iff.mp hp
    rw [Option.getD_some, id_of_get? (directory?_eq_some_iff.mp hd).1]
    exact hd

/-- One step of a walk goes from a directory to a directory. -/
theorem Sound.directory?_enter (ht : t.Sound) {here d : Node} {component : String}
    (hhere : t.directory? here.id = some here) (h : t.enter here component = some d) :
    t.directory? d.id = some d := by
  unfold enter at h
  split at h
  · exact Option.some.inj h ▸ hhere
  · split at h
    · exact Option.some.inj h ▸ ht.directory?_parentOf here
    · -- a named child has been filtered for directories
      obtain ⟨hfind, hdir⟩ := Option.filter_eq_some_iff.mp h
      exact directory?_eq_some_iff.mpr ⟨(of_findChild hfind).1, hdir⟩

/-! ## Walks -/

/-- **A walk from a directory ends at one.** -/
theorem Sound.directory?_walk (ht : t.Sound) {components : List String} {start d : Node}
    (hstart : t.directory? start.id = some start) (h : t.walk start components = some d) :
    t.directory? d.id = some d := by
  unfold walk at h
  rw [if_pos (directory?_eq_some_iff.mp hstart).2] at h
  -- the induction is on the components, and the start moves along
  induction components generalizing start with
  | nil => exact Option.some.inj h ▸ hstart
  | cons component rest ih =>
    obtain ⟨next, henter, hrest⟩ := Option.bind_eq_some_iff.mp h
    exact ih (ht.directory?_enter hstart henter) hrest

theorem Sound.directory?_origin (ht : t.Sound) {start : Node}
    (hstart : t.directory? start.id = some start) (path : String) :
    t.directory? (t.origin start path).id = some (t.origin start path) := by
  unfold origin
  split
  · exact ht.directory?_rootNode
  · exact hstart

theorem Sound.directory?_findDirectory (ht : t.Sound) {start d : Node} {path : String}
    (hstart : t.directory? start.id = some start) (h : t.findDirectory start path = some d) :
    t.directory? d.id = some d :=
  ht.directory?_walk (ht.directory?_origin hstart path) h

/-- A path typed by the user, if it means anything, means a directory of the tree. -/
theorem Sound.directory?_resolveDirectory (ht : t.Sound) {path : String} {d : Node}
    (h : t.resolveDirectory path = some d) : t.directory? d.id = some d := by
  unfold resolveDirectory at h
  cases hp : Path.classify path with
  | root =>
    rw [hp] at h
    exact Option.some.inj h ▸ ht.directory?_rootNode
  | current =>
    rw [hp] at h
    exact Option.some.inj h ▸ ht.directory?_currentDirectory
  | parent =>
    rw [hp] at h
    exact Option.some.inj h ▸ ht.directory?_parentOf _
  | home =>
    rw [hp] at h
    exact ht.directory?_findDirectory ht.directory?_rootNode h
  | absolute components =>
    rw [hp] at h
    exact ht.directory?_walk ht.directory?_rootNode h
  | relative components =>
    rw [hp] at h
    exact ht.directory?_walk ht.directory?_currentDirectory h

end TermShell.Tree
