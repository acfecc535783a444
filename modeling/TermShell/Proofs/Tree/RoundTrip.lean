import TermShell.Proofs.Path
import TermShell.Proofs.Tree.Walks

/-!
# From a node to its path and back

The path of a node need not lead back to it. Nothing keeps names apart, and on a walk the first
child that answers to a component is the one that is meant, a file as well as a directory. So
the way back succeeds exactly if every node on it is the first of its siblings to answer to its
name (`findDirectory_path_iff`). For a file the last step is different, because only files are
looked at there (`findFile_path_iff`).

That it cannot succeed otherwise is due to the shape of a tree: a walk that has once gone to
another child stays below that child, and never comes to the node whose path it follows. In
terms of single steps, a walk that ends at a node has come through the one directory that lists
it.

The names have to be valid, for a name like two dots would be taken for a step up. No operation
renames anything, so names stay valid where only valid ones are inserted.
-/

namespace TermShell.Tree

variable {t : Tree}

/-! ## First among siblings -/

/-- The first child of `d` of the wanted kind that has this full or bare name is `n`. -/
def FirstCalled (t : Tree) (d : Node) (wanted : Node → Bool) (name : String) (n : Node) : Prop :=
  ∃ before after, t.childrenOf d = before ++ n :: after ∧ wanted n = true ∧ n.Called name ∧
    ∀ b ∈ before, wanted b = true → ¬ b.Called name

/-- The node is the first child of its directory, files included, that has its bare name as its
full or bare name. -/
def Foremost (t : Tree) (n : Node) : Prop := t.FirstCalled (t.parentOf n) anyKind n.name n

/-- The node is `n` or lies above it, and is not the root. -/
def OnWay (t : Tree) (a n : Node) : Prop :=
  t.get? a.id = some a ∧ a.id ≠ t.root ∧ t.arena.Leads a.id n.id

/-- **A lookup finds the first child that is called so.** -/
theorem findChild_eq_some_iff {d n : Node} {name : String} {wanted : Node → Bool} :
    t.findChild d name wanted = some n ↔ t.FirstCalled d wanted name n := by
  rw [findChild, List.find?_eq_some_iff_append]
  constructor
  · intro hex
    obtain ⟨hn, before, after, hchildren, hbefore⟩ := hex
    rw [Bool.and_eq_true, Node.answersTo_iff] at hn
    refine ⟨before, after, hchildren, hn.1, hn.2, fun b hb hwanted hcalled => ?_⟩
    have := hbefore b hb
    simp [hwanted, Node.answersTo_iff.mpr hcalled] at this
  · intro hex
    obtain ⟨before, after, hchildren, hwanted, hcalled, hbefore⟩ := hex
    refine ⟨by rw [hwanted, Node.answersTo_iff.mpr hcalled]; rfl, before, after, hchildren, ?_⟩
    intro b hb
    cases hw : wanted b with
    | false => rfl
    | true =>
      have hno : b.answersTo name = false :=
        Bool.eq_false_iff.mpr fun ha => hbefore b hb hw (Node.answersTo_iff.mp ha)
      rw [hno]
      rfl

theorem findChild_eq_none_iff {d : Node} {name : String} {wanted : Node → Bool} :
    t.findChild d name wanted = none ↔
      ∀ m ∈ t.childrenOf d, wanted m = true → ¬ m.Called name := by
  rw [findChild, List.find?_eq_none]
  simp only [Bool.and_eq_true, Node.answersTo_iff, not_and]

/-! ## Valid names -/

/-- Every node but the root has a valid full name. -/
def Named (t : Tree) : Prop :=
  ∀ id n, t.get? id = some n → id ≠ t.root → Path.isValidName n.fullName = true

/-- A node to be inserted has a valid name. -/
def Edit.Proper : Edit → Prop
  | .insert _ n => Path.isValidName n.fullName = true
  | _ => True

/-- Nothing is renamed. -/
theorem Edit.Does.fullName_cases {t' : Tree} {e : Edit} (h : e.Does t t') {id : Nat} {n' : Node}
    (hn : t'.get? id = some n') :
    (∃ n, t.get? id = some n ∧ n'.fullName = n.fullName) ∨
      ∃ p n, e = .insert p n ∧ n'.fullName = n.fullName := by
  cases h with
  | nothing => exact .inl ⟨n', hn, rfl⟩
  | @appended p m _ h =>
    rcases h.get?_cases hn with ⟨_, rfl⟩ | ⟨n, cs, hold, rfl, _⟩
    · exact .inr ⟨p, m, rfl, rfl⟩
    · exact .inl ⟨n, hold, n.fullName_withChildren cs⟩
  | removed h =>
    obtain ⟨_, n, cs, hold, rfl, _⟩ := h.get?_cases hn
    exact .inl ⟨n, hold, n.fullName_withChildren cs⟩
  | @repermitted m _ _ h =>
    rcases h.get?_cases hn with ⟨rfl, rfl⟩ | ⟨_, hold⟩
    · exact .inl ⟨m, h.before, rfl⟩
    · exact .inl ⟨n', hold, rfl⟩
  | @written m contents _ _ h =>
    rcases h.get?_cases hn with ⟨rfl, rfl⟩ | ⟨_, hold⟩
    · exact .inl ⟨m, h.before, m.fullName_withContents contents⟩
    · exact .inl ⟨n', hold, rfl⟩
  | gone => exact .inl ⟨n', hn, rfl⟩

theorem Edit.Does.named {t' : Tree} {e : Edit} (h : e.Does t t') (hroot : t'.root = t.root)
    (he : e.Proper) (ht : t.Named) : t'.Named := by
  intro id n' hn hid
  rcases h.fullName_cases hn with ⟨n, hold, hname⟩ | ⟨p, n, rfl, hname⟩
  · rw [hname]
    exact ht id n hold (hroot ▸ hid)
  · rw [hname]
    exact he

theorem named_standard : Layout.tree.Named := by
  have hall : ∀ n ∈ Layout.tree.arena.nodes,
      n.id ≠ Layout.tree.root → Path.isValidName n.fullName = true := by
    decide +kernel
  intro id n hn hid
  refine hall n (Arena.mem_of_get? hn) ?_
  rwa [id_of_get? hn]

/-- The names of a trail can be read back from a path. -/
theorem Rooted.names_of_trail (h : t.Rooted) (hnamed : t.Named) {trail : List Node} {n : Node}
    (ht : t.Trail trail n) :
    ∀ name ∈ trail.map Node.fullName, name ≠ "" ∧ Path.separator ∉ name.toList := by
  refine List.forall_mem_map.mpr fun a ha => ?_
  have hvalid := hnamed a.id a (ht.leads ha).1 (h.ne_root_of_mem_trail ht ha)
  obtain ⟨hempty, _, _, hslash, _⟩ := Path.isValidName_iff.mp hvalid
  exact ⟨hempty, hslash⟩

/-- In a tree with valid names the path of a node has the names of its trail as components. -/
theorem Rooted.components_path (h : t.Rooted) (hnamed : t.Named) {trail : List Node} {n : Node}
    (ht : t.Trail trail n) : Path.components (t.path n) = trail.map Node.fullName := by
  rw [path, spell, h.names_trail ht]
  exact Path.components_spelled (h.names_of_trail hnamed ht)

theorem origin_path (t : Tree) (start n : Node) : t.origin start (t.path n) = t.rootNode :=
  if_pos (Path.isAbsolute_spelled _)

/-! ## The way back -/

namespace Rooted

/-- **A walk that finds a node has come to the directory that lists it.** -/
theorem eq_of_walk (h : t.Rooted) {components : List String} {trail above : List Node}
    {start m p n : Node} (hstart : t.Trail trail start)
    (hwalk : components.foldlM t.enter start = some m) (hm : n.id ∈ m.children)
    (hp : t.Trail above p) (hc : n.id ∈ p.children) : m = p := by
  obtain ⟨there, hthere, _⟩ := h.trail_walk hstart hwalk
  have hid := h.lister_unique (hthere.lists hm) (hp.lists hc)
  have hget := hthere.get?
  rw [hid, hp.get?] at hget
  exact (Option.some.inj hget).symm

/-- So a node is found at the end of a walk exactly if the walk leads to the directory that lists
the node, and the node is found there. -/
theorem walk_find_iff (h : t.Rooted) {r : Node} (hr : t.get? t.root = some r)
    {components : List String} {above : List Node} {p n : Node} (hp : t.Trail above p)
    (hc : n.id ∈ p.children) {name : String} {wanted : Node → Bool} :
    (∃ m, components.foldlM t.enter r = some m ∧ t.FirstCalled m wanted name n) ↔
      components.foldlM t.enter r = some p ∧ t.FirstCalled p wanted name n := by
  constructor
  · intro hex
    obtain ⟨m, hm, hfirst⟩ := hex
    have hmc := (of_findChild (findChild_eq_some_iff.mpr hfirst)).2.1
    obtain rfl := h.eq_of_walk (.root hr) hm hmc hp hc
    exact ⟨hm, hfirst⟩
  · exact fun hex => ⟨p, hex⟩

/-- **The walk along the names of a trail leads to its end exactly if every node passed is the
first of its siblings to be called so.** -/
theorem foldlM_enter_trail_iff (h : t.Rooted) (hnamed : t.Named) {r : Node}
    (hr : t.get? t.root = some r) {trail : List Node} {d : Node} (ht : t.Trail trail d)
    (hd : d.isDirectory = true) :
    (trail.map Node.name).foldlM t.enter r = some d ↔ ∀ a ∈ trail, t.Foremost a := by
  induction ht with
  | root hd' =>
    obtain rfl := Option.some.inj (hr.symm.trans hd')
    simp
  | @step above p d habove hget hc ih =>
    have hroot : d.id ≠ t.root := fun hid => h.root_not_listed _ (hid ▸ habove.lists hc)
    -- the name is no step up, so the last step is a lookup in the directory above
    have hvalid := hnamed d.id d hget hroot
    rw [Node.fullName_of_isDirectory hd] at hvalid
    obtain ⟨_, hdot, hdots, _⟩ := Path.isValidName_iff.mp hvalid
    have hlast : ∀ m, t.enter m d.name = some d ↔ t.FirstCalled m anyKind d.name d := by
      intro m
      rw [enter_of_name hdot hdots, Option.filter_eq_some_iff, findChild_eq_some_iff]
      exact and_iff_left hd
    rw [List.map_append, List.foldlM_append, List.forall_mem_append,
      ← ih (Node.isDirectory_of_mem_children hc)]
    simp only [List.map_cons, List.map_nil, List.foldlM_cons, List.foldlM_nil, bind_pure,
      Option.bind_eq_bind, Option.bind_eq_some_iff, hlast, List.forall_mem_singleton]
    rw [h.walk_find_iff hr habove hc, Foremost, h.parentOf_of_trail habove hget hc]

/-- **The path of a directory leads back to it exactly if all on the way are foremost.** -/
theorem findDirectory_path_iff (h : t.Rooted) (hnamed : t.Named) {r : Node}
    (hr : t.directory? t.root = some r) (start : Node) {d : Node}
    (hd : t.directory? d.id = some d) :
    t.findDirectory start (t.path d) = some d ↔ ∀ a, t.OnWay a d → t.Foremost a := by
  obtain ⟨hrget, hrdir⟩ := directory?_eq_some_iff.mp hr
  obtain ⟨hdget, hddir⟩ := directory?_eq_some_iff.mp hd
  obtain ⟨trail, htrail⟩ := h.exists_trail hdget
  rw [findDirectory, origin_path, rootNode_of_get? hrget, walk, if_pos hrdir,
    h.components_path hnamed htrail, htrail.map_fullName hddir,
    h.foldlM_enter_trail_iff hnamed hrget htrail hddir]
  exact forall_congr' fun a => by rw [h.mem_trail_iff htrail, OnWay]

/-- What is passed before the last node of a trail is what lies above that node. -/
theorem mem_above_iff (h : t.Rooted) {above : List Node} {n : Node}
    (ht : t.Trail (above ++ [n]) n) (a : Node) : a ∈ above ↔ t.OnWay a n ∧ a ≠ n := by
  rw [OnWay, ← h.mem_trail_iff ht, List.mem_append, List.mem_singleton]
  constructor
  · intro ha
    refine ⟨.inl ha, ?_⟩
    rintro rfl
    exact (List.nodup_append.mp (h.nodup_trail ht)).2.2 a ha a (List.mem_singleton_self a) rfl
  · exact fun ha => ha.1.resolve_right ha.2

/-- **The path of a file leads back to it exactly if all above it are foremost and it is the first
file of its directory to be called by its full name.** -/
theorem findFile_path_iff (h : t.Rooted) (hnamed : t.Named) {r : Node}
    (hr : t.directory? t.root = some r) (start : Node) {f : Node} (hf : t.get? f.id = some f)
    (hfile : f.isFile = true) :
    t.findFile start (t.path f) = some f ↔
      (∀ a, t.OnWay a f → a ≠ f → t.Foremost a) ∧
        t.FirstCalled (t.parentOf f) Node.isFile f.fullName f := by
  obtain ⟨hrget, hrdir⟩ := directory?_eq_some_iff.mp hr
  obtain ⟨trail, htrail⟩ := h.exists_trail hf
  cases htrail with
  | root hroot =>
    -- the root is a directory, and so not the file
    rw [Option.some.inj (hroot.symm.trans hrget), Node.isFile, hrdir] at hfile
    exact absurd hfile (by simp)
  | @step above p _ habove _ hc =>
    have htrail : t.Trail (above ++ [f]) f := .step habove hf hc
    have hp := Node.isDirectory_of_mem_children hc
    have hcomponents : Path.components (t.path f) = above.map Node.name ++ [f.fullName] := by
      rw [h.components_path hnamed htrail, List.map_append, habove.map_fullName hp]
      rfl
    have hwalk : (above.map Node.name).foldlM t.enter r = some p ↔
        ∀ a, t.OnWay a f → a ≠ f → t.Foremost a := by
      rw [h.foldlM_enter_trail_iff hnamed hrget habove hp]
      simp only [h.mem_above_iff htrail, and_imp]
    rw [findFile, hcomponents, List.getLast?_concat, List.dropLast_concat, origin_path,
      rootNode_of_get? hrget, walk, if_pos hrdir, ← hwalk, h.parentOf_of_trail habove hf hc]
    simp only [Option.bind_eq_some_iff, findChild_eq_some_iff]
    exact h.walk_find_iff hrget habove hc

end Rooted

end TermShell.Tree
