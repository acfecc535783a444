import TermShell.Proofs.Tree.Change
import TermShell.Proofs.Tree.Verdict

/-!
# Changes keep a tree a tree

`Sound` is the condition under which the shell works: the arena is a tree, its root is a
directory, and so is the current directory. Each of the three kinds of change keeps it, and
so does moving to another directory.

For every kind of change the first thing to know is what is listed afterwards: once that is
settled, the conditions of `Rooted` carry over one by one.
-/

namespace TermShell

/-- The nodes agree in all that matters for the shape of a tree. -/
structure Node.SameShape (n n' : Node) : Prop where
  parent : n'.parent = n.parent
  isRoot : n'.isRoot = n.isRoot
  isDirectory : n'.isDirectory = n.isDirectory
  children : n'.children = n.children

theorem Node.SameShape.refl (n : Node) : n.SameShape n := ⟨rfl, rfl, rfl, rfl⟩

theorem Node.sameShape_withPermissions (n : Node) (permissions : PermissionSet) :
    n.SameShape { n with permissions } := ⟨rfl, rfl, rfl, rfl⟩

theorem Node.sameShape_withContents (n : Node) (contents : String) :
    n.SameShape (n.withContents contents) := ⟨by simp, by simp, by simp, by simp⟩

namespace Tree

/-- A tree with a root and a current directory. -/
structure Sound (t : Tree) : Prop where
  /-- The check of the shape finds no fault. -/
  intact : t.Intact
  /-- The root is there and is a directory. -/
  root : ∃ r, t.directory? t.root = some r
  /-- The current directory is there and is a directory. -/
  current : ∃ d, t.directory? t.current = some d

variable {t t' : Tree}

theorem Sound.rooted (h : t.Sound) : t.Rooted := intact_iff_rooted.mp h.intact

/-- In a sound tree the current directory is the one its number stands for. -/
theorem Sound.directory?_current (h : t.Sound) :
    t.directory? t.current = some t.currentDirectory := by
  obtain ⟨d, hd⟩ := h.current
  rw [currentDirectory_of_directory? hd, hd]

theorem Sound.get?_current (h : t.Sound) : t.get? t.current = some t.currentDirectory :=
  (directory?_eq_some_iff.mp h.directory?_current).1

/-- In a sound tree the root is the directory its number stands for. -/
theorem Sound.directory?_root (h : t.Sound) : t.directory? t.root = some t.rootNode := by
  obtain ⟨r, hr⟩ := h.root
  rw [rootNode_of_get? (directory?_eq_some_iff.mp hr).1, hr]

/-- With a current directory a tree is sound: the root leads to it, and so is a directory too. -/
theorem sound_of_current (ht : t.Intact) (hcurrent : ∃ d, t.directory? t.current = some d) :
    t.Sound where
  intact := ht
  root := by
    have h := intact_iff_rooted.mp ht
    obtain ⟨d, hd⟩ := hcurrent
    obtain ⟨hget, hdir⟩ := directory?_eq_some_iff.mp hd
    obtain ⟨r, hr, _⟩ := h.root
    refine ⟨r, directory?_eq_some_iff.mpr ⟨hr, ?_⟩⟩
    rcases Relation.ReflTransGen.cases_head (h.reached _ d hget) with heq | ⟨c, hlists, _⟩
    · rw [heq, hget] at hr
      rwa [← Option.some.inj hr]
    · obtain ⟨n, hn, hc⟩ := hlists
      rw [Option.some.inj (hr.symm.trans hn)]
      exact Node.isDirectory_of_mem_children hc
  current := hcurrent

/-- A directory that is found again, perhaps changed but still a directory. -/
theorem directory?_of_get? {x : Nat} {m m' : Node} (hm : t.directory? x = some m)
    (hm' : t'.get? x = some m') (h : m'.isDirectory = m.isDirectory) :
    t'.directory? x = some m' := by
  rw [(directory?_eq_some_iff.mp hm).2] at h
  exact directory?_eq_some_iff.mpr ⟨hm', h⟩

/-! ## Appending -/

namespace Appended

variable {p : Nat} {n : Node}

theorem lists_iff (h : t.Appended p n t') (q c : Nat) :
    t'.arena.Lists q c ↔ t.arena.Lists q c ∨ q = p ∧ c = n.id := by
  obtain ⟨d, hd, hd'⟩ := h.into
  obtain ⟨hp, hdir⟩ := directory?_eq_some_iff.mp hd
  by_cases hqn : q = n.id
  · -- the new node lists nothing, and before it was there it did not either
    subst hqn
    have hnp : n.id ≠ p := by
      intro he
      have := h.fresh
      rw [he, hp] at this
      exact absurd this (by simp)
    have h1 : ¬ t'.arena.Lists n.id c := by
      intro hex
      obtain ⟨m, hm, hc⟩ := hex
      rw [← Option.some.inj (h.new.symm.trans hm), h.childless] at hc
      exact absurd hc (by simp)
    have h2 : ¬ t.arena.Lists n.id c := by
      intro hex
      obtain ⟨m, hm, _⟩ := hex
      exact absurd (h.fresh.symm.trans hm) (by simp)
    simp [h1, h2, hnp]
  · by_cases hqp : q = p
    · subst hqp
      have h1 : t'.arena.Lists q c ↔ c ∈ d.children ∨ c = n.id := by
        constructor
        · intro hex
          obtain ⟨m, hm, hc⟩ := hex
          rw [← Option.some.inj (hd'.symm.trans hm), Node.children_withChildren _ hdir] at hc
          simpa using hc
        · intro hc
          exact ⟨_, hd', by rw [Node.children_withChildren _ hdir]; simpa using hc⟩
      have h2 : t.arena.Lists q c ↔ c ∈ d.children :=
        ⟨fun ⟨m, hm, hc⟩ => Option.some.inj (hp.symm.trans hm) ▸ hc, fun hc => ⟨d, hp, hc⟩⟩
      simp [h1, h2]
    · have heq : t'.arena.get? q = t.arena.get? q := h.others q hqn hqp
      simp [Arena.Lists, heq, hqp]

/-- A node of the new tree is the new one or an old one, perhaps with other children. -/
theorem get?_cases (h : t.Appended p n t') {x : Nat} {m' : Node} (hm : t'.get? x = some m') :
    x = n.id ∧ m' = n ∨
      ∃ m cs, t.get? x = some m ∧ m' = m.withChildren cs ∧
        (cs = m.children ∨ cs = m.children ++ [n.id]) := by
  obtain ⟨d, hd, hd'⟩ := h.into
  by_cases hxn : x = n.id
  · subst hxn
    exact .inl ⟨rfl, Option.some.inj (hm.symm.trans h.new)⟩
  · right
    by_cases hxp : x = p
    · subst hxp
      exact ⟨d, _, (directory?_eq_some_iff.mp hd).1, Option.some.inj (hm.symm.trans hd'), .inr rfl⟩
    · rw [h.others x hxn hxp] at hm
      exact ⟨m', _, hm, (Node.withChildren_children m').symm, .inl rfl⟩

/-- What was there is there, perhaps with other children. -/
theorem exists_of_get? (h : t.Appended p n t') {x : Nat} {m : Node} (hm : t.get? x = some m) :
    ∃ cs, t'.get? x = some (m.withChildren cs) := by
  have hxn : x ≠ n.id := by
    intro he
    rw [he, h.fresh] at hm
    exact absurd hm (by simp)
  obtain ⟨d, hd, hd'⟩ := h.into
  by_cases hxp : x = p
  · subst hxp
    rw [(directory?_eq_some_iff.mp hd).1] at hm
    exact ⟨_, Option.some.inj hm ▸ hd'⟩
  · exact ⟨m.children, by rw [h.others x hxn hxp, hm, Node.withChildren_children]⟩

theorem directory?_of_directory? (h : t.Appended p n t') {x : Nat} {d : Node}
    (hd : t.directory? x = some d) : ∃ d', t'.directory? x = some d' := by
  obtain ⟨cs, hcs⟩ := h.exists_of_get? (directory?_eq_some_iff.mp hd).1
  exact ⟨_, directory?_of_get? hd hcs (d.isDirectory_withChildren cs)⟩

/-- The new number is not among the old children, for these are all there. -/
theorem not_mem_children (h : t.Appended p n t') (ht : t.Rooted) {x : Nat} {m : Node}
    (hm : t.get? x = some m) : n.id ∉ m.children := by
  intro hc
  obtain ⟨k, hk, _⟩ := ht.below x n.id ⟨m, hm, hc⟩
  exact absurd (h.fresh.symm.trans hk) (by simp)

/-- No directory lists anything twice. -/
theorem nodup (h : t.Appended p n t') (ht : t.Rooted) {x : Nat} {m' : Node}
    (hm' : t'.get? x = some m') : m'.children.Nodup := by
  rcases h.get?_cases hm' with ⟨_, rfl⟩ | ⟨m, cs, hm, rfl, rfl | rfl⟩
  · rw [h.childless]
    exact List.nodup_nil
  · rw [Node.withChildren_children]
    exact ht.nodup x m hm
  · have hnd : (m.children ++ [n.id]).Nodup :=
      List.Nodup.append (ht.nodup x m hm) (List.nodup_singleton _)
        (List.disjoint_singleton.mpr (h.not_mem_children ht hm))
    exact hnd.sublist (m.children_withChildren_sublist _)

/-- **A tree with a node appended is a tree.** -/
theorem rooted (h : t.Appended p n t') (ht : t.Rooted) : t'.Rooted := by
  obtain ⟨d, hd, hd'⟩ := h.into
  have hp := (directory?_eq_some_iff.mp hd).1
  have hlead : ∀ x, t.arena.Leads t.root x → t'.arena.Leads t.root x := by
    intro x hx
    exact hx.mono fun q c hc => (h.lists_iff q c).mpr (.inl hc)
  refine ⟨?_, ?_, ?_, ?_, fun x m' hm' => h.nodup ht hm', ?_⟩
  · obtain ⟨r, hr, hmark, hnone⟩ := ht.root
    obtain ⟨cs, hcs⟩ := h.exists_of_get? hr
    exact ⟨_, h.root ▸ hcs, by simpa using hmark, by simpa using hnone⟩
  · intro x m' hm' hmark
    rw [h.root]
    rcases h.get?_cases hm' with ⟨_, rfl⟩ | ⟨m, cs, hm, rfl, _⟩
    · rw [h.unmarked] at hmark
      exact absurd hmark (by simp)
    · exact ht.marked x m hm (by simpa using hmark)
  · intro x m' hm' hx
    rw [h.root] at hx
    rcases h.get?_cases hm' with ⟨rfl, rfl⟩ | ⟨m, cs, hm, rfl, _⟩
    · exact ⟨p, h.parent, (h.lists_iff p _).mpr (.inr ⟨rfl, rfl⟩)⟩
    · obtain ⟨q, hq, hl⟩ := ht.above x m hm hx
      exact ⟨q, by simpa using hq, (h.lists_iff q x).mpr (.inl hl)⟩
  · intro q c hl
    rcases (h.lists_iff q c).mp hl with hl | ⟨rfl, rfl⟩
    · obtain ⟨m, hm, hmp⟩ := ht.below q c hl
      obtain ⟨cs, hcs⟩ := h.exists_of_get? hm
      exact ⟨_, hcs, by simpa using hmp⟩
    · exact ⟨n, h.new, h.parent⟩
  · intro x m' hm'
    rw [h.root]
    rcases h.get?_cases hm' with ⟨rfl, _⟩ | ⟨m, cs, hm, _, _⟩
    · -- the new node hangs on a directory that lies below the root
      exact (hlead p (ht.reached p d hp)).step ((h.lists_iff p _).mpr (.inr ⟨rfl, rfl⟩))
    · exact hlead x (ht.reached x m hm)

theorem sound (h : t.Appended p n t') (ht : t.Sound) : t'.Sound where
  intact := intact_iff_rooted.mpr (h.rooted ht.rooted)
  root := by
    obtain ⟨r, hr⟩ := ht.root
    exact h.root ▸ h.directory?_of_directory? hr
  current := by
    obtain ⟨d, hd⟩ := ht.current
    exact h.current ▸ h.directory?_of_directory? hd

end Appended

/-! ## Keeping a part -/

/--
**A part that is kept with all that leads to it is a tree.**

The nodes that `kept` holds of stay where they are, with the mark they had; nothing else
does. What is listed afterwards is what was listed and is kept.
-/
theorem Rooted.part (ht : t.Rooted) (kept : Nat → Prop) (hroot : t'.root = t.root)
    (hkept : kept t.root)
    (hold : ∀ x m', t'.get? x = some m' → kept x ∧ ∃ m, t.get? x = some m ∧
      m'.parent = m.parent ∧ m'.isRoot = m.isRoot ∧ m'.children.Sublist m.children)
    (hnew : ∀ x m, t.get? x = some m → kept x → ∃ m', t'.get? x = some m')
    (hlists : ∀ q c, t'.arena.Lists q c ↔ t.arena.Lists q c ∧ kept c) : t'.Rooted := by
  have hsame : ∀ x m, t.get? x = some m → kept x →
      ∃ m', t'.get? x = some m' ∧ m'.parent = m.parent ∧ m'.isRoot = m.isRoot := by
    intro x m hm hx
    obtain ⟨m', hm'⟩ := hnew x m hm hx
    obtain ⟨_, k, hk, hpar, hmark, _⟩ := hold x m' hm'
    rw [Option.some.inj (hm.symm.trans hk)]
    exact ⟨m', hm', hpar, hmark⟩
  -- what is kept is listed by something that is kept, up to the root
  have hlead : ∀ x, t.arena.Leads t.root x → kept x → t'.arena.Leads t.root x := by
    intro x hx
    induction hx with
    | refl => exact fun _ => .refl
    | @tail y z hy hz ih =>
      intro hkz
      obtain ⟨m', hm', hc⟩ := (hlists y z).mpr ⟨hz, hkz⟩
      exact (ih (hold y m' hm').1).step ⟨m', hm', hc⟩
  constructor
  · obtain ⟨r, hr, hmark, hnone⟩ := ht.root
    obtain ⟨r', hr', hpar', hmark'⟩ := hsame _ r hr hkept
    exact ⟨r', hroot ▸ hr', by rw [hmark', hmark], by rw [hpar', hnone]⟩
  · intro x m' hm' hmark
    obtain ⟨_, m, hm, _, hmark', _⟩ := hold x m' hm'
    rw [hroot]
    exact ht.marked x m hm (hmark' ▸ hmark)
  · intro x m' hm' hx
    obtain ⟨hkx, m, hm, hpar, _, _⟩ := hold x m' hm'
    obtain ⟨p, hp, hl⟩ := ht.above x m hm (hroot ▸ hx)
    exact ⟨p, by rw [hpar, hp], (hlists p x).mpr ⟨hl, hkx⟩⟩
  · intro p c hl
    obtain ⟨hl, hkc⟩ := (hlists p c).mp hl
    obtain ⟨m, hm, hp⟩ := ht.below p c hl
    obtain ⟨m', hm', hpar, _⟩ := hsame c m hm hkc
    exact ⟨m', hm', by rw [hpar, hp]⟩
  · intro x m' hm'
    obtain ⟨_, m, hm, _, _, hsub⟩ := hold x m' hm'
    exact (ht.nodup x m hm).sublist hsub
  · intro x m' hm'
    obtain ⟨hkx, m, hm, _⟩ := hold x m' hm'
    rw [hroot]
    exact hlead x (ht.reached x m hm) hkx

/-! ## Removing -/

namespace Removed

variable {p id : Nat}

/-- A node of the new tree was there, is not below what was removed, and lists what it
listed or a part of that. -/
theorem get?_cases (h : t.Removed p id t') {x : Nat} {m' : Node} (hm' : t'.get? x = some m') :
    ¬ t.arena.Leads id x ∧ ∃ m cs, t.get? x = some m ∧ m' = m.withChildren cs ∧
      cs.Sublist m.children := by
  have hx : ¬ t.arena.Leads id x := by
    intro hx
    exact absurd ((h.gone x hx).symm.trans hm') (by simp)
  refine ⟨hx, ?_⟩
  obtain ⟨d, hd, hd'⟩ := h.out
  by_cases hxp : x = p
  · subst hxp
    exact ⟨d, _, (directory?_eq_some_iff.mp hd).1, Option.some.inj (hm'.symm.trans hd'),
      List.erase_sublist⟩
  · rw [h.others x hx hxp] at hm'
    exact ⟨m', _, hm', (Node.withChildren_children m').symm, List.Sublist.refl _⟩

/-- What is not below what was removed is still there, perhaps with other children. -/
theorem exists_of_get? (h : t.Removed p id t') {x : Nat} {m : Node} (hm : t.get? x = some m)
    (hx : ¬ t.arena.Leads id x) : ∃ cs, t'.get? x = some (m.withChildren cs) := by
  obtain ⟨d, hd, hd'⟩ := h.out
  by_cases hxp : x = p
  · subst hxp
    rw [(directory?_eq_some_iff.mp hd).1] at hm
    exact ⟨_, Option.some.inj hm ▸ hd'⟩
  · exact ⟨m.children, by rw [h.others x hx hxp, hm, Node.withChildren_children]⟩

theorem lists_iff (h : t.Removed p id t') (ht : t.Rooted) (q c : Nat) :
    t'.arena.Lists q c ↔ t.arena.Lists q c ∧ ¬ t.arena.Leads id c := by
  obtain ⟨d, hd, hd'⟩ := h.out
  obtain ⟨hp, hdir⟩ := directory?_eq_some_iff.mp hd
  constructor
  · intro hex
    obtain ⟨m', hm', hc⟩ := hex
    obtain ⟨hq, m, cs, hm, rfl, hsub⟩ := h.get?_cases hm'
    have hdir' : m.isDirectory = true := by
      simpa using Node.isDirectory_of_mem_children hc
    have hl : t.arena.Lists q c :=
      ⟨m, hm, hsub.subset (by rwa [Node.children_withChildren _ hdir'] at hc)⟩
    refine ⟨hl, fun hlead => ?_⟩
    rcases ht.leads_lister hl hlead with rfl | hlead
    · -- what was removed is no longer listed, for it was listed once
      obtain rfl := ht.lister_unique hl h.listed
      rw [← Option.some.inj (hd'.symm.trans hm'), Node.children_withChildren _ hdir] at hc
      exact (ht.nodup q d hp).not_mem_erase hc
    · exact hq hlead
  · intro hex
    obtain ⟨hl, hc⟩ := hex
    have hq : ¬ t.arena.Leads id q := fun hq => hc (hq.step hl)
    obtain ⟨m, hm, hcm⟩ := hl
    by_cases hqp : q = p
    · subst hqp
      obtain rfl := Option.some.inj (hp.symm.trans hm)
      have hcid : c ≠ id := fun he => hc (he ▸ .refl)
      refine ⟨_, hd', ?_⟩
      rw [Node.children_withChildren _ hdir]
      exact (List.mem_erase_of_ne hcid).mpr hcm
    · exact ⟨m, (h.others q hq hqp).trans hm, hcm⟩

/-- What is removed is listed, and so it is not the root. -/
theorem ne_root (h : t.Removed p id t') (ht : t.Rooted) : id ≠ t.root := by
  intro he
  exact ht.root_not_listed p (he ▸ h.listed)

/-- **A tree with a node removed is a tree.** -/
theorem rooted (h : t.Removed p id t') (ht : t.Rooted) : t'.Rooted := by
  refine ht.part (fun x => ¬ t.arena.Leads id x) h.root (ht.not_leads_root (h.ne_root ht))
    (fun x m' hm' => ?_) (fun x m hm hx => ?_) (h.lists_iff ht)
  · obtain ⟨hx, m, cs, hm, rfl, hsub⟩ := h.get?_cases hm'
    exact ⟨hx, m, hm, by simp, by simp, (m.children_withChildren_sublist cs).trans hsub⟩
  · obtain ⟨cs, hcs⟩ := h.exists_of_get? hm hx
    exact ⟨_, hcs⟩

theorem directory?_of_directory? (h : t.Removed p id t') {x : Nat} {d : Node}
    (hd : t.directory? x = some d) (hx : ¬ t.arena.Leads id x) :
    ∃ d', t'.directory? x = some d' := by
  obtain ⟨cs, hcs⟩ := h.exists_of_get? (directory?_eq_some_iff.mp hd).1 hx
  exact ⟨_, directory?_of_get? hd hcs (d.isDirectory_withChildren cs)⟩

/-- **If the current directory is removed, the directory above takes its place**; that one is
still there, since nothing lies below itself. -/
theorem sound (h : t.Removed p id t') (ht : t.Sound) : t'.Sound where
  intact := intact_iff_rooted.mpr (h.rooted ht.rooted)
  root := by
    rw [h.root]
    exact h.directory?_of_directory? ht.directory?_root
      (ht.rooted.not_leads_root (h.ne_root ht.rooted))
  current := by
    by_cases hc : t.arena.Leads id t.current
    · -- the current directory went with the rest, and `p` did not
      obtain ⟨d, hd, _⟩ := h.out
      rw [h.moved (h.gone _ hc)]
      exact h.directory?_of_directory? hd (ht.rooted.not_leads_up h.listed)
    · obtain ⟨d', hd'⟩ := h.directory?_of_directory? ht.directory?_current hc
      rw [h.stayed ⟨d', (directory?_eq_some_iff.mp hd').1⟩]
      exact ⟨d', hd'⟩

end Removed

/-! ## Altering one node -/

namespace Altered

variable {n n' : Node}

theorem get?_cases (h : t.Altered n n' t') {x : Nat} {m' : Node} (hm' : t'.get? x = some m') :
    x = n.id ∧ m' = n' ∨ x ≠ n.id ∧ t.get? x = some m' := by
  by_cases hx : x = n.id
  · subst hx
    exact .inl ⟨rfl, Option.some.inj (hm'.symm.trans h.after)⟩
  · exact .inr ⟨hx, by rw [← h.others x hx, hm']⟩

theorem exists_of_get? (h : t.Altered n n' t') {x : Nat} {m : Node} (hm : t.get? x = some m) :
    ∃ m', t'.get? x = some m' := by
  by_cases hx : x = n.id
  · exact ⟨n', hx ▸ h.after⟩
  · exact ⟨m, by rw [h.others x hx, hm]⟩

/-- In the new tree every node has the shape it had. -/
theorem exists_sameShape (h : t.Altered n n' t') (hs : n.SameShape n') {x : Nat} {m' : Node}
    (hm' : t'.get? x = some m') : ∃ m, t.get? x = some m ∧ m.SameShape m' := by
  rcases h.get?_cases hm' with ⟨rfl, rfl⟩ | ⟨_, hm⟩
  · exact ⟨n, h.before, hs⟩
  · exact ⟨m', hm, .refl m'⟩

theorem lists_iff (h : t.Altered n n' t') (hs : n.SameShape n') (q c : Nat) :
    t'.arena.Lists q c ↔ t.arena.Lists q c := by
  constructor
  · intro hex
    obtain ⟨m', hm', hc⟩ := hex
    obtain ⟨m, hm, hmm⟩ := h.exists_sameShape hs hm'
    exact ⟨m, hm, hmm.children ▸ hc⟩
  · intro hex
    obtain ⟨m, hm, hc⟩ := hex
    obtain ⟨m', hm'⟩ := h.exists_of_get? hm
    obtain ⟨k, hk, hmm⟩ := h.exists_sameShape hs hm'
    rw [Option.some.inj (hm.symm.trans hk)] at hc
    exact ⟨m', hm', hmm.children ▸ hc⟩

/-- **A tree with a node altered, but not in its shape, is a tree.** -/
theorem rooted (h : t.Altered n n' t') (hs : n.SameShape n') (ht : t.Rooted) : t'.Rooted := by
  refine ht.part (fun _ => True) h.root trivial (fun x m' hm' => ?_)
    (fun x m hm _ => h.exists_of_get? hm) (fun q c => by simp [h.lists_iff hs])
  obtain ⟨m, hm, hmm⟩ := h.exists_sameShape hs hm'
  exact ⟨trivial, m, hm, hmm.parent, hmm.isRoot, by rw [hmm.children]⟩

theorem directory?_of_directory? (h : t.Altered n n' t') (hs : n.SameShape n') {x : Nat}
    {d : Node} (hd : t.directory? x = some d) : ∃ d', t'.directory? x = some d' := by
  have hx := (directory?_eq_some_iff.mp hd).1
  obtain ⟨d', hd'⟩ := h.exists_of_get? hx
  obtain ⟨m, hm, hmm⟩ := h.exists_sameShape hs hd'
  obtain rfl := Option.some.inj (hm.symm.trans hx)
  exact ⟨d', directory?_of_get? hd hd' hmm.isDirectory⟩

theorem sound (h : t.Altered n n' t') (hs : n.SameShape n') (ht : t.Sound) : t'.Sound where
  intact := intact_iff_rooted.mpr (h.rooted hs ht.rooted)
  root := by
    obtain ⟨r, hr⟩ := ht.root
    exact h.root ▸ h.directory?_of_directory? hs hr
  current := by
    obtain ⟨d, hd⟩ := ht.current
    exact h.current ▸ h.directory?_of_directory? hs hd

end Altered

/-! ## Moving -/

/-- Another current directory makes no difference to the shape. -/
theorem Sound.withCurrent (ht : t.Sound) {id : Nat} {d : Node} (hd : t.directory? id = some d) :
    Sound { t with current := id } where
  intact := intact_iff_rooted.mpr ⟨ht.rooted.root, ht.rooted.marked, ht.rooted.above,
    ht.rooted.below, ht.rooted.nodup, ht.rooted.reached⟩
  root := ht.root
  current := ⟨d, hd⟩

end Tree

end TermShell
