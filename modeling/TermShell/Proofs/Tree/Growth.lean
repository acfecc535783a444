import TermShell.Proofs.Tree.RoundTrip

/-!
# Trees that have grown

A tree grows where nothing is taken away from it: every node is still there under its names, and
a directory has at most further children behind those that it had. Files may be written and
permissions given meanwhile.

A lookup takes the first child that answers to a name, so what is added behind the others hides
nothing. A walk that led somewhere therefore still leads there (`GrowsTo.walk_rootNode`). One
that led nowhere may do so no longer.
-/

namespace TermShell

/-- The node has kept its names and its place; it may have become another one inside, and a
directory may have further children behind those that it had. -/
structure Node.GrowsTo (n n' : Node) : Prop where
  name : n'.name = n.name
  fullName : n'.fullName = n.fullName
  parent : n'.parent = n.parent
  isDirectory : n'.isDirectory = n.isDirectory
  children : n.children <+: n'.children

namespace Node.GrowsTo

variable {n n' n'' : Node}

theorem refl (n : Node) : n.GrowsTo n := ⟨rfl, rfl, rfl, rfl, List.prefix_rfl⟩

theorem trans (h : n.GrowsTo n') (h' : n'.GrowsTo n'') : n.GrowsTo n'' where
  name := h'.name.trans h.name
  fullName := h'.fullName.trans h.fullName
  parent := h'.parent.trans h.parent
  isDirectory := h'.isDirectory.trans h.isDirectory
  children := h.children.trans h'.children

theorem withContents (n : Node) (contents : String) : n.GrowsTo (n.withContents contents) where
  name := n.name_withContents contents
  fullName := n.fullName_withContents contents
  parent := n.parent_withContents contents
  isDirectory := n.isDirectory_withContents contents
  children := by simp

theorem withChildren (h : n.isDirectory = true) (more : List Nat) :
    n.GrowsTo (n.withChildren (n.children ++ more)) where
  name := n.name_withChildren _
  fullName := n.fullName_withChildren _
  parent := n.parent_withChildren _
  isDirectory := n.isDirectory_withChildren _
  children := by
    rw [Node.children_withChildren _ h]
    exact List.prefix_append _ _

theorem answersTo_eq (h : n.GrowsTo n') (name : String) : n'.answersTo name = n.answersTo name := by
  rw [Bool.eq_iff_iff, Node.answersTo_iff, Node.answersTo_iff, Node.Called, Node.Called, h.name,
    h.fullName]

end Node.GrowsTo

namespace Tree

variable {t t' t'' : Tree}

/-- Every node of the first tree is in the second one, where it may have grown. -/
structure GrowsTo (t t' : Tree) : Prop where
  root : t'.root = t.root
  nodes : ∀ id n, t.get? id = some n → ∃ n', t'.get? id = some n' ∧ n.GrowsTo n'

theorem GrowsTo.trans (h : t.GrowsTo t') (h' : t'.GrowsTo t'') : t.GrowsTo t'' where
  root := h'.root.trans h.root
  nodes id n hn := by
    obtain ⟨n', hn', hgrows⟩ := h.nodes id n hn
    obtain ⟨n'', hn'', hgrows'⟩ := h'.nodes id n' hn'
    exact ⟨n'', hn'', hgrows.trans hgrows'⟩

theorem Appended.growsTo {p : Nat} {n : Node} (h : t.Appended p n t') : t.GrowsTo t' where
  root := h.root
  nodes id m hm := by
    have hne : id ≠ n.id := by
      rintro rfl
      exact absurd (h.fresh.symm.trans hm) (by simp)
    by_cases hp : id = p
    · obtain ⟨d, hd, hd'⟩ := h.into
      obtain ⟨hget, hdir⟩ := directory?_eq_some_iff.mp hd
      obtain rfl := Option.some.inj ((hp ▸ hm).symm.trans hget)
      exact ⟨_, hp ▸ hd', .withChildren hdir _⟩
    · exact ⟨m, (h.others id hne hp).trans hm, .refl m⟩

theorem Altered.growsTo {n n' : Node} (h : t.Altered n n' t') (hn : n.GrowsTo n') :
    t.GrowsTo t' where
  root := h.root
  nodes id m hm := by
    by_cases hid : id = n.id
    · subst hid
      obtain rfl := Option.some.inj (hm.symm.trans h.before)
      exact ⟨n', h.after, hn⟩
    · exact ⟨m, (h.others id hid).trans hm, .refl m⟩

/-! ## What has become of a node -/

/-- The number of a node of `t` stands for `n'` in `t'`. -/
def Becomes (t t' : Tree) (n n' : Node) : Prop := t.get? n.id = some n ∧ t'.get? n.id = some n'

theorem GrowsTo.node (h : t.GrowsTo t') {n n' : Node} (hb : t.Becomes t' n n') : n.GrowsTo n' := by
  obtain ⟨m, hm, hgrows⟩ := h.nodes n.id n hb.1
  rwa [Option.some.inj (hb.2.symm.trans hm)]

theorem GrowsTo.exists_becomes (h : t.GrowsTo t') {n : Node} (hn : t.get? n.id = some n) :
    ∃ n', t.Becomes t' n n' := by
  obtain ⟨n', hn', _⟩ := h.nodes n.id n hn
  exact ⟨n', hn, hn'⟩

/-- The numbers of some nodes stand for what has become of these. -/
theorem GrowsTo.forall₂_filterMap (h : t.GrowsTo t') {cs : List Nat}
    (hcs : ∀ c ∈ cs, ∃ n, t.get? c = some n) :
    List.Forall₂ (t.Becomes t') (cs.filterMap t.get?) (cs.filterMap t'.get?) := by
  induction cs with
  | nil => exact .nil
  | cons c cs ih =>
    obtain ⟨n, hn⟩ := hcs c List.mem_cons_self
    obtain rfl := id_of_get? hn
    obtain ⟨n', hn'⟩ := h.exists_becomes hn
    rw [List.filterMap_cons_some hn, List.filterMap_cons_some hn'.2]
    exact .cons hn' (ih fun c hc => hcs c (List.mem_cons_of_mem _ hc))

/-- The children of a directory are found behind one another as before, and perhaps further ones
behind them. -/
theorem GrowsTo.childrenOf (h : t.GrowsTo t') (ht : t.Rooted) {d d' : Node}
    (hd : t.Becomes t' d d') :
    ∃ ms more, t'.childrenOf d' = ms ++ more ∧
      List.Forall₂ (t.Becomes t') (t.childrenOf d) ms := by
  obtain ⟨extra, hextra⟩ := (h.node hd).children
  refine ⟨d.children.filterMap t'.get?, extra.filterMap t'.get?, ?_, ?_⟩
  · rw [Tree.childrenOf, ← hextra, List.filterMap_append]
  · refine h.forall₂_filterMap fun c hc => ?_
    obtain ⟨n, hn, _⟩ := ht.below d.id c ⟨d, hd.1, hc⟩
    exact ⟨n, hn⟩

/-! ## Walks -/

/-- The first one of a kind is found in its place as long as all before it keep their kind. -/
theorem find?_of_forall₂ {α β : Type} {R : α → β → Prop} {p : α → Bool} {q : β → Bool}
    (hpq : ∀ a b, R a b → q b = p a) {as : List α} {bs : List β} (h : List.Forall₂ R as bs)
    {a : α} (ha : as.find? p = some a) : ∃ b, bs.find? q = some b ∧ R a b := by
  induction h with
  | nil => exact absurd ha (by simp)
  | @cons x y _ _ hxy _ ih =>
    cases hx : p x with
    | true =>
      rw [List.find?_cons_of_pos hx] at ha
      obtain rfl := Option.some.inj ha
      exact ⟨y, List.find?_cons_of_pos ((hpq _ _ hxy).trans hx), hxy⟩
    | false =>
      rw [List.find?_cons_of_neg (by simp [hx])] at ha
      rw [List.find?_cons_of_neg (by simp [hpq _ _ hxy, hx])]
      exact ih ha

theorem GrowsTo.findChild (h : t.GrowsTo t') (ht : t.Rooted) {d d' n : Node} {name : String}
    (hd : t.Becomes t' d d') (hn : t.findChild d name anyKind = some n) :
    ∃ n', t'.findChild d' name anyKind = some n' ∧ t.Becomes t' n n' := by
  obtain ⟨ms, more, hchildren, hms⟩ := h.childrenOf ht hd
  obtain ⟨n', hfind, hn'⟩ := find?_of_forall₂ (q := fun c => anyKind c && c.answersTo name)
    (fun a b hab => by rw [(h.node hab).answersTo_eq]; rfl) hms hn
  refine ⟨n', ?_, hn'⟩
  rw [Tree.findChild, hchildren, List.find?_append, hfind]
  rfl

theorem GrowsTo.directory? (h : t.GrowsTo t') {n n' : Node} (hn : t.Becomes t' n n')
    (hdir : t.directory? n.id = some n) : t'.directory? n.id = some n' :=
  directory?_of_get? hdir hn.2 (h.node hn).isDirectory

theorem GrowsTo.rootNode (h : t.GrowsTo t') (ht : t.Sound) :
    t.Becomes t' t.rootNode t'.rootNode := by
  have hget := (directory?_eq_some_iff.mp ht.directory?_root).1
  have hid := id_of_get? hget
  obtain ⟨r', hr'⟩ := h.exists_becomes (hid.symm ▸ hget)
  have hroot : t'.get? t'.root = some r' := by rw [h.root, ← hid, hr'.2]
  rwa [rootNode_of_get? hroot]

theorem GrowsTo.parentOf (h : t.GrowsTo t') (ht : t.Sound) {n n' : Node}
    (hn : t.Becomes t' n n') : t.Becomes t' (t.parentOf n) (t'.parentOf n') := by
  have hparent := (h.node hn).parent
  by_cases hid : n.id = t.root
  · -- nothing is above the root, in neither tree
    obtain ⟨r, hr, _, hnone⟩ := ht.rooted.root
    obtain rfl := Option.some.inj ((hid ▸ hn.1).symm.trans hr)
    rw [Tree.parentOf, Tree.parentOf, hparent, hnone]
    exact h.rootNode ht
  · obtain ⟨p, hp, m, hm, hc⟩ := ht.rooted.above n.id n hn.1 hid
    have hdir : t.directory? p = some m :=
      directory?_eq_some_iff.mpr ⟨hm, Node.isDirectory_of_mem_children hc⟩
    obtain rfl := id_of_get? hm
    obtain ⟨m', hm'⟩ := h.exists_becomes hm
    rw [Tree.parentOf, Tree.parentOf, hparent, hp, Option.bind_some, Option.bind_some, hdir,
      h.directory? hm' hdir]
    exact hm'

/-- A step that leads somewhere leads there still. -/
theorem GrowsTo.enter (h : t.GrowsTo t') (ht : t.Sound) {here here' d : Node} {component : String}
    (hhere : t.Becomes t' here here') (hd : t.enter here component = some d) :
    ∃ d', t'.enter here' component = some d' ∧ t.Becomes t' d d' := by
  unfold Tree.enter at hd ⊢
  by_cases hdot : component = "."
  · rw [if_pos hdot] at hd ⊢
    obtain rfl := Option.some.inj hd
    exact ⟨here', rfl, hhere⟩
  rw [if_neg hdot] at hd ⊢
  by_cases hdots : component = ".."
  · rw [if_pos hdots] at hd ⊢
    obtain rfl := Option.some.inj hd
    exact ⟨_, rfl, h.parentOf ht hhere⟩
  rw [if_neg hdots] at hd ⊢
  obtain ⟨hfind, hdir⟩ := Option.filter_eq_some_iff.mp hd
  obtain ⟨d', hfind', hd'⟩ := h.findChild ht.rooted hhere hfind
  exact ⟨d', Option.filter_eq_some_iff.mpr ⟨hfind', (h.node hd').isDirectory.trans hdir⟩, hd'⟩

/-- **A walk from the root that leads somewhere leads there still** when the tree has grown. -/
theorem GrowsTo.walk_rootNode (h : t.GrowsTo t') (ht : t.Sound) {components : List String}
    {d : Node} (hd : t.walk t.rootNode components = some d) :
    ∃ d', t'.walk t'.rootNode components = some d' ∧ t.Becomes t' d d' := by
  have hroot := h.rootNode ht
  have hdir : t.rootNode.isDirectory = true :=
    (directory?_eq_some_iff.mp ht.directory?_rootNode).2
  rw [walk, if_pos hdir] at hd
  rw [walk, if_pos ((h.node hroot).isDirectory.trans hdir)]
  -- the induction is on the components, and both starts move along
  generalize t.rootNode = start, t'.rootNode = start' at hroot hd ⊢
  induction components generalizing start start' with
  | nil =>
    obtain rfl := Option.some.inj hd
    exact ⟨start', rfl, hroot⟩
  | cons component rest ih =>
    obtain ⟨next, henter, hrest⟩ := Option.bind_eq_some_iff.mp hd
    obtain ⟨next', henter', hnext⟩ := h.enter ht hroot henter
    obtain ⟨d', hwalk, hd'⟩ := ih next next' hnext hrest
    exact ⟨d', Option.bind_eq_some_iff.mpr ⟨next', henter', hwalk⟩, hd'⟩

/-! ## Trails -/

/-- **What a tree grows from keeps its trails**: the nodes passed have their names still. -/
theorem GrowsTo.trail (h : t.GrowsTo t') {trail : List Node} {n n' : Node} (ht : t.Trail trail n)
    (hn : t.Becomes t' n n') :
    ∃ trail', t'.Trail trail' n' ∧ trail'.map Node.fullName = trail.map Node.fullName := by
  induction ht generalizing n' with
  | root hr =>
    refine ⟨[], .root ?_, rfl⟩
    rw [h.root, ← id_of_get? hr]
    exact hn.2
  | @step above p n habove _ hc ih =>
    obtain ⟨p', hp'⟩ := h.exists_becomes habove.get?
    obtain ⟨above', habove', hnames⟩ := ih hp'
    have hid := id_of_get? hn.2
    refine ⟨above' ++ [n'], .step habove' (hid.symm ▸ hn.2) ?_, ?_⟩
    · exact hid.symm ▸ (h.node hp').children.subset hc
    · rw [List.map_append, List.map_append, hnames, List.map_singleton, List.map_singleton,
        (h.node hn).fullName]

/-! ## A new child -/

/-- **A new child is behind its siblings, and these are as they were.** -/
theorem Appended.childrenOf {p : Nat} {n : Node} (h : t.Appended p n t') (ht : t.Rooted) {d : Node}
    (hd : t.directory? p = some d) :
    ∃ d', t'.directory? p = some d' ∧ d'.permissions = d.permissions ∧ n.id ∈ d'.children ∧
      t'.childrenOf d' = t.childrenOf d ++ [n] := by
  obtain ⟨e, he, he'⟩ := h.into
  obtain rfl := Option.some.inj (he.symm.trans hd)
  obtain ⟨hget, hdir⟩ := directory?_eq_some_iff.mp hd
  have hchildren := Node.children_withChildren (e.children ++ [n.id]) hdir
  refine ⟨_, directory?_of_get? hd he' (by simp), by simp, by simp [hchildren], ?_⟩
  rw [Tree.childrenOf, hchildren, List.filterMap_append, List.filterMap_cons_some h.new,
    List.filterMap_nil]
  refine congrArg (· ++ [n]) (List.filterMap_congr fun c hc => h.others c ?_ ?_)
  · rintro rfl
    exact h.not_mem_children ht hget hc
  · -- no directory is its own child
    rintro rfl
    exact ht.not_leads_up ⟨e, hget, hc⟩ .refl

/-- **A new child is named as its directory is, with its own name behind**, and its directory is the
one it has been put into. -/
theorem Appended.names_parentOf {p : Nat} {n : Node} (h : t.Appended p n t') (ht : t.Rooted)
    {d : Node} (hd : t.directory? p = some d) :
    t'.names n = t.names d ++ [n.fullName] ∧ t'.directory? p = some (t'.parentOf n) ∧
      (t'.parentOf n).permissions = d.permissions := by
  obtain ⟨d', hd', hpermissions, hc, _⟩ := h.childrenOf ht hd
  have hget := (directory?_eq_some_iff.mp hd).1
  obtain rfl := id_of_get? hget
  obtain ⟨above, habove⟩ := ht.exists_trail hget
  obtain ⟨above', habove', hnames⟩ :=
    h.growsTo.trail habove ⟨hget, (directory?_eq_some_iff.mp hd').1⟩
  have ht' := h.rooted ht
  rw [ht'.parentOf_of_trail habove' h.new hc, ht'.names_trail (.step habove' h.new hc),
    ht.names_trail habove, List.map_append, hnames]
  exact ⟨rfl, hd', hpermissions⟩

/-- The last child is found if no other one of the kind is called so. -/
theorem findChild_last {d n : Node} {siblings : List Node} {name : String} {wanted : Node → Bool}
    (hchildren : t.childrenOf d = siblings ++ [n]) (hwanted : wanted n = true)
    (hname : n.Called name) (hnone : ∀ m ∈ siblings, wanted m = true → ¬ m.Called name) :
    t.findChild d name wanted = some n :=
  findChild_eq_some_iff.mpr ⟨siblings, [], hchildren, hwanted, hname, hnone⟩

/-! ## A new file -/

/-- **A new file is found behind directories only.** -/
theorem GrowsTo.findChild_new (h : t.GrowsTo t') (ht : t.Rooted) {d d' n : Node} {name : String}
    (hd : t.Becomes t' d d') (hchildren : d'.children = d.children ++ [n.id])
    (hn : t'.get? n.id = some n) (hfile : n.isFile = true) (hname : n.Called name)
    (hdirs : ∀ m ∈ t.childrenOf d, m.isDirectory = true) :
    t'.findChild d' name Node.isFile = some n := by
  have hlast : t'.childrenOf d' = d.children.filterMap t'.get? ++ [n] := by
    rw [Tree.childrenOf, hchildren, List.filterMap_append, List.filterMap_cons_some hn,
      List.filterMap_nil]
  refine findChild_eq_some_iff.mpr ⟨_, [], hlast, hfile, hname, fun b hb hwanted => ?_⟩
  -- what is in front has been a directory before, and is one still
  obtain ⟨c, hc, hb⟩ := List.mem_filterMap.mp hb
  obtain ⟨m, hm, _⟩ := ht.below d.id c ⟨d, hd.1, hc⟩
  obtain rfl := id_of_get? hm
  have hdir := (h.node ⟨hm, hb⟩).isDirectory.trans (hdirs m (mem_childrenOf.mpr ⟨hm, hc⟩))
  simp [Node.isFile, hdir] at hwanted

/-- A file that has been appended to a directory of directories is found there, whatever has been
written to it since. -/
theorem Appended.findChild_file {p : Nat} {n : Node} (happ : t.Appended p n t') (ht : t.Rooted)
    {d : Node} (hd : t.directory? p = some d) (hgrows : t.GrowsTo t'')
    (hp : t''.get? p = t'.get? p) {n' : Node} (hn' : t''.get? n.id = some n')
    (hfile : n'.isFile = true) {name : String} (hname : n'.Called name)
    (hdirs : ∀ m ∈ t.childrenOf d, m.isDirectory = true) :
    ∃ d', t''.get? p = some d' ∧ t''.findChild d' name Node.isFile = some n' := by
  obtain ⟨e, he, he'⟩ := happ.into
  obtain rfl := Option.some.inj (he.symm.trans hd)
  obtain ⟨hget, hdir⟩ := directory?_eq_some_iff.mp he
  obtain rfl := id_of_get? hget
  have hd' : t''.get? e.id = some (e.withChildren (e.children ++ [n.id])) := hp.trans he'
  obtain hid := id_of_get? hn'
  refine ⟨_, hd', hgrows.findChild_new ht ⟨hget, hd'⟩ ?_ (hid.symm ▸ hn') hfile hname hdirs⟩
  rw [Node.children_withChildren _ hdir, hid]

end Tree

end TermShell
