import Mathlib.Data.List.Nodup
import Mathlib.Data.List.Pairwise
import Mathlib.Data.List.Perm.Basic
import TermShell.Proofs.Tree.Rooted
import TermShell.Tree.Integrity

/-!
# The check decides what a tree is

`Tree.Intact` asks whether the check of the shape finds a fault; `Tree.Rooted` says what a
tree is. The two agree (`intact_iff_rooted`).

The walk of the check is accounted for by a tally: the numbers that are pending or listed by
a node not yet met are, up to order, the numbers of the nodes not yet met. One step of the
walk keeps the balance in both directions (`tally_erase`). Read backwards from a walk that
ends with nothing unmet, the balance says that everything is listed exactly once. Read
forwards from a tree, it says that the walk never meets a number it does not expect, and
that what it leaves unmet would be closed upwards, which `Rooted.avoids` excludes.
-/

namespace TermShell

namespace Arena

theorem nodup_nodes (a : Arena) : a.nodes.Nodup := List.Nodup.of_map _ a.nodup_ids

theorem get?_eq_none_of_size_eq_zero {a : Arena} (h : a.size = 0) (id : Nat) :
    a.get? id = none := by
  have hnil : a.nodes = [] := List.eq_nil_of_length_eq_zero h
  simp [get?, hnil]

theorem size_eq_zero_of_get? {a : Arena} (h : ∀ id, a.get? id = none) : a.size = 0 := by
  refine List.length_eq_zero_iff.mpr (List.eq_nil_iff_forall_not_mem.mpr fun n hn => ?_)
  have hsome : a.get? n.id = some n := get?_eq_some_iff.mpr ⟨hn, rfl⟩
  rw [h] at hsome
  exact absurd hsome (by simp)

theorem mem_ids_iff {a : Arena} {id : Nat} :
    id ∈ a.nodes.map Node.id ↔ ∃ n, a.get? id = some n := by
  simp only [List.mem_map, get?_eq_some_iff]

theorem mem_flatMap_children_iff {a : Arena} {c : Nat} :
    c ∈ a.nodes.flatMap Node.children ↔ ∃ p, a.Lists p c := by
  simp only [List.mem_flatMap, Lists, get?_eq_some_iff]
  constructor
  · intro hex
    obtain ⟨n, hn, hc⟩ := hex
    exact ⟨n.id, n, ⟨hn, rfl⟩, hc⟩
  · intro hex
    obtain ⟨_, n, ⟨hn, _⟩, hc⟩ := hex
    exact ⟨n, hn, hc⟩

/-- A node that is there can be set apart from the others. -/
theorem nodes_perm_erase {a : Arena} {id : Nat} {n : Node} (h : a.get? id = some n) :
    a.nodes.Perm (n :: (a.erase id).nodes) := by
  have hmem := get?_eq_some_iff.mp h
  have hnot : n ∉ (a.erase id).nodes := fun hn => by
    have := (List.mem_filter.mp hn).2
    simp [hmem.2] at this
  refine (List.perm_ext_iff_of_nodup a.nodup_nodes
    (List.nodup_cons.mpr ⟨hnot, (a.erase id).nodup_nodes⟩)).mpr fun x => ?_
  constructor
  · intro hx
    by_cases hid : x.id = id
    · have hx' : a.get? id = some x := get?_eq_some_iff.mpr ⟨hx, hid⟩
      rw [Option.some.inj (hx'.symm.trans h)]
      exact List.mem_cons_self
    · exact List.mem_cons_of_mem _ (List.mem_filter.mpr ⟨hx, by simpa using hid⟩)
  · intro hx
    rcases List.mem_cons.mp hx with rfl | hx
    · exact hmem.1
    · exact mem_nodes_erase hx

/-! ## The tally -/

/-- The pending numbers and the listed ones are, up to order, the numbers of the nodes. -/
def Tally (a : Arena) (pending : List Nat) : Prop :=
  (pending ++ a.nodes.flatMap Node.children).Perm (a.nodes.map Node.id)

theorem tally_nil_of_size_eq_zero {a : Arena} (h : a.size = 0) : a.Tally [] := by
  have hnil : a.nodes = [] := List.eq_nil_of_length_eq_zero h
  simp [Tally, hnil]

/-- **One step of the walk keeps the balance**, read in either direction. -/
theorem tally_erase {a : Arena} {id : Nat} {n : Node} {rest : List Nat}
    (h : a.get? id = some n) :
    (a.erase id).Tally (n.children.reverse ++ rest) ↔ a.Tally (id :: rest) := by
  have hperm := nodes_perm_erase h
  have hlisted : (a.nodes.flatMap Node.children).Perm
      (n.children ++ (a.erase id).nodes.flatMap Node.children) :=
    hperm.flatMap_right Node.children
  have hids : (a.nodes.map Node.id).Perm (id :: (a.erase id).nodes.map Node.id) := by
    have := hperm.map Node.id
    rwa [List.map_cons, id_of_get? h] at this
  -- what `id` lists moves from the listed numbers to the pending ones
  have hmove : (n.children.reverse ++ rest ++ (a.erase id).nodes.flatMap Node.children).Perm
      (rest ++ a.nodes.flatMap Node.children) := by
    have h1 : (n.children.reverse ++ rest).Perm (rest ++ n.children) :=
      ((List.reverse_perm _).append_right rest).trans List.perm_append_comm
    have h2 := h1.append_right ((a.erase id).nodes.flatMap Node.children)
    rw [List.append_assoc rest] at h2
    exact h2.trans (hlisted.symm.append_left rest)
  constructor
  · intro ht
    exact ((hmove.symm.trans ht).cons id).trans hids.symm
  · intro ht
    exact hmove.trans ((ht.trans hids).cons_inv)

theorem get?_of_tally {a : Arena} {id : Nat} {rest : List Nat} (h : a.Tally (id :: rest)) :
    ∃ n, a.get? id = some n :=
  mem_ids_iff.mp (h.subset List.mem_cons_self)

/-- In a balanced arena two nodes do not list the same number. -/
theorem lister_unique_of_tally {a : Arena} {pending : List Nat} (h : a.Tally pending)
    {p q c : Nat} (hp : a.Lists p c) (hq : a.Lists q c) : p = q := by
  have hnd : (a.nodes.flatMap Node.children).Nodup :=
    ((List.nodup_append.mp (h.nodup_iff.mpr a.nodup_ids)).2).1
  -- no number is in the children of two nodes, which is what pairwise disjoint means
  have hdisj := (List.nodup_flatMap.mp hnd).2
  have : Std.Symm (Function.onFun List.Disjoint Node.children) := ⟨fun _ _ hd _ h1 h2 => hd h2 h1⟩
  obtain ⟨n, hn, hcn⟩ := hp
  obtain ⟨m, hm, hcm⟩ := hq
  rw [← id_of_get? hn, ← id_of_get? hm]
  by_contra hne
  have hnm : n ≠ m := fun he => hne (congrArg Node.id he)
  exact hdisj.forall (mem_of_get? hn) (mem_of_get? hm) hnm hcn hcm

end Arena

namespace Tree

open Arena (Tally)

variable {t : Tree}

/-! ## The walk -/

theorem tally_of_meet {u rest : Arena} {pending : List Nat} (h : t.meet u pending = .ok rest)
    (hrest : rest.Tally []) : u.Tally pending := by
  fun_induction Tree.meet t u pending with
  | case1 u =>
    cases h
    exact hrest
  | case2 u id pending n hn ih => exact (Arena.tally_erase hn).mp (ih h)
  | case3 => exact absurd h (by simp)
  | case4 => exact absurd h (by simp)

/-- What the walk has met can be reached from a pending number. -/
theorem leadsAny_of_meet {u rest : Arena} {pending : List Nat} (h : t.meet u pending = .ok rest)
    (hu : ∀ id n, u.get? id = some n → t.get? id = some n) {id : Nat} {n : Node}
    (hn : u.get? id = some n) (hgone : rest.get? id = none) : t.arena.LeadsAny pending id := by
  fun_induction Tree.meet t u pending with
  | case1 u =>
    cases h
    rw [hn] at hgone
    exact absurd hgone (by simp)
  | case2 u s pending m hm ih =>
    by_cases hs : id = s
    · exact ⟨s, List.mem_cons_self, hs ▸ .refl⟩
    · have hsub : ∀ x k, (u.erase s).get? x = some k → t.get? x = some k := by
        intro x k hk
        rw [Arena.get?_erase] at hk
        split at hk
        · exact absurd hk (by simp)
        · exact hu x k hk
      obtain ⟨q, hq, hlead⟩ := ih h hsub (by rw [Arena.get?_erase, if_neg hs]; exact hn)
      rcases List.mem_append.mp hq with hq | hq
      · have hlist : t.arena.Lists s q := ⟨m, hu s m hm, List.mem_reverse.mp hq⟩
        exact ⟨s, List.mem_cons_self, Relation.ReflTransGen.head hlist hlead⟩
      · exact ⟨q, List.mem_cons_of_mem _ hq, hlead⟩
  | case3 => exact absurd h (by simp)
  | case4 => exact absurd h (by simp)

/-- **A walk in balance does not fail**, and what it leaves is in balance again. -/
theorem meet_of_tally {u : Arena} {pending : List Nat} (h : u.Tally pending) :
    ∃ rest, t.meet u pending = .ok rest ∧ rest.Tally [] ∧
      (∀ id n, rest.get? id = some n → u.get? id = some n) ∧
      ∀ id ∈ pending, rest.get? id = none := by
  fun_induction Tree.meet t u pending with
  | case1 u => exact ⟨u, rfl, h, fun _ _ hn => hn, fun _ hid => absurd hid (by simp)⟩
  | case2 u s pending m hm ih =>
    obtain ⟨rest, hmeet, hrest, hsub, hgone⟩ := ih ((Arena.tally_erase hm).mpr h)
    have hsub' : ∀ id n, rest.get? id = some n → id ≠ s ∧ u.get? id = some n := by
      intro id n hn
      have := hsub id n hn
      rw [Arena.get?_erase] at this
      split at this
      · exact absurd this (by simp)
      · exact ⟨‹_›, this⟩
    refine ⟨rest, hmeet, hrest, fun id n hn => (hsub' id n hn).2, fun id hid => ?_⟩
    rcases List.mem_cons.mp hid with rfl | hid
    · cases hq : rest.get? id with
      | none => rfl
      | some n => exact absurd rfl (hsub' id n hq).1
    · exact hgone id (List.mem_append_right _ hid)
  | case3 u s pending hs =>
    obtain ⟨n, hn⟩ := Arena.get?_of_tally h
    rw [hs] at hn
    exact absurd hn (by simp)
  | case4 u s pending hs =>
    obtain ⟨n, hn⟩ := Arena.get?_of_tally h
    rw [hs] at hn
    exact absurd hn (by simp)

/-! ## The three questions -/

theorem rootFault?_eq_none_iff : t.rootFault? = none ↔
    (t.arena.nodes.filter Node.isRoot).length = 1 ∧ t.rootNode.isRoot = true ∧
      t.rootNode.parent = none := by
  simp [rootFault?]

theorem linkFault?_eq_none_iff {n : Node} : t.linkFault? n = none ↔
    n.isRoot = true ∨ ∃ p, n.parent = some p ∧ t.arena.Lists p n.id := by
  unfold linkFault?
  split
  · rename_i hroot
    simp [hroot]
  · rename_i hroot
    split
    · rename_i hp
      simp [hroot, hp]
    · rename_i p hp
      split
      · rename_i hd
        have hno : ¬ t.arena.Lists p n.id := by
          intro hex
          obtain ⟨d, hget, hc⟩ := hex
          have := directory?_eq_some_iff.mpr ⟨hget, Node.isDirectory_of_mem_children hc⟩
          rw [hd] at this
          exact absurd this (by simp)
        simp [hroot, hp, hno]
      · rename_i d hd
        have hget : t.arena.get? p = some d := (directory?_eq_some_iff.mp hd).1
        have hlist : t.arena.Lists p n.id ↔ n.id ∈ d.children := by
          simp [Arena.Lists, hget]
        simp [hroot, hp, hlist]

theorem childFault?_eq_none_iff : t.childFault? = none ↔
    ∃ unmet, t.meet t.arena [t.root] = .ok unmet ∧ unmet.size = 0 := by
  unfold childFault?
  split
  · rename_i e he
    simp [he]
  · rename_i unmet hu
    simp [hu]

theorem intact_iff_no_fault : t.Intact ↔ t.rootFault? = none ∧
    (∀ n ∈ t.arena.nodes, t.linkFault? n = none) ∧ t.childFault? = none := by
  simp only [Intact, fault?, Option.or_eq_none_iff, List.findSome?_eq_none_iff]

/-- With one marked node in the arena, a marked node is that one. -/
theorem eq_of_marked (hcount : (t.arena.nodes.filter Node.isRoot).length = 1) {n m : Node}
    (hn : n ∈ t.arena.nodes) (hm : m ∈ t.arena.nodes) (hnr : n.isRoot = true)
    (hmr : m.isRoot = true) : n = m := by
  obtain ⟨x, hx⟩ := List.length_eq_one_iff.mp hcount
  have h1 : n ∈ t.arena.nodes.filter Node.isRoot := List.mem_filter.mpr ⟨hn, hnr⟩
  have h2 : m ∈ t.arena.nodes.filter Node.isRoot := List.mem_filter.mpr ⟨hm, hmr⟩
  rw [hx, List.mem_singleton] at h1 h2
  rw [h1, h2]

theorem rooted_of_intact (h : t.Intact) : t.Rooted := by
  obtain ⟨hroot, hlink, hchild⟩ := intact_iff_no_fault.mp h
  obtain ⟨hcount, hmark, hnone⟩ := rootFault?_eq_none_iff.mp hroot
  obtain ⟨unmet, hmeet, hsize⟩ := childFault?_eq_none_iff.mp hchild
  have htally : t.arena.Tally [t.root] :=
    tally_of_meet hmeet (Arena.tally_nil_of_size_eq_zero hsize)
  obtain ⟨r, hr⟩ := Arena.get?_of_tally htally
  rw [rootNode_of_get? hr] at hmark hnone
  have hmarked : ∀ id n, t.get? id = some n → n.isRoot = true → id = t.root := by
    intro id n hn hnr
    rw [← id_of_get? hn, ← id_of_get? hr,
      eq_of_marked hcount (Arena.mem_of_get? hn) (Arena.mem_of_get? hr) hnr hmark]
  have habove : ∀ id n, t.get? id = some n → id ≠ t.root →
      ∃ p, n.parent = some p ∧ t.arena.Lists p id := by
    intro id n hn hid
    rcases linkFault?_eq_none_iff.mp (hlink n (Arena.mem_of_get? hn)) with hnr | hp
    · exact absurd (hmarked id n hn hnr) hid
    · rwa [id_of_get? hn] at hp
  have hnd : (t.root :: t.arena.nodes.flatMap Node.children).Nodup :=
    htally.nodup_iff.mpr t.arena.nodup_ids
  refine ⟨⟨r, hr, hmark, hnone⟩, hmarked, habove, ?_, ?_, ?_⟩
  · intro p c hl
    have hc : c ∈ t.arena.nodes.flatMap Node.children := Arena.mem_flatMap_children_iff.mpr ⟨p, hl⟩
    obtain ⟨n, hn⟩ := Arena.mem_ids_iff.mp (htally.subset (List.mem_cons_of_mem _ hc))
    have hcr : c ≠ t.root := fun he => (List.nodup_cons.mp hnd).1 (he ▸ hc)
    obtain ⟨q, hq, hlq⟩ := habove c n hn hcr
    exact ⟨n, hn, by rw [hq, Arena.lister_unique_of_tally htally hlq hl]⟩
  · intro id n hn
    exact (List.nodup_flatMap.mp (List.nodup_cons.mp hnd).2).1 n (Arena.mem_of_get? hn)
  · intro id n hn
    obtain ⟨s, hs, hlead⟩ := leadsAny_of_meet hmeet (fun _ _ hk => hk) hn
      (Arena.get?_eq_none_of_size_eq_zero hsize id)
    rwa [List.mem_singleton.mp hs] at hlead

/-- A tree is in balance with its root pending. -/
theorem Rooted.tally (h : t.Rooted) : t.arena.Tally [t.root] := by
  have hdisj : t.arena.nodes.Pairwise (Function.onFun List.Disjoint Node.children) := by
    refine List.Pairwise.imp_of_mem ?_ t.arena.nodup_nodes
    intro n m hn hm hnm c hcn hcm
    have hn' := Arena.get?_eq_some_iff.mpr ⟨hn, rfl⟩
    have hm' := Arena.get?_eq_some_iff.mpr ⟨hm, rfl⟩
    have hid : n.id = m.id := h.lister_unique ⟨n, hn', hcn⟩ ⟨m, hm', hcm⟩
    rw [hid] at hn'
    exact hnm (Option.some.inj (hn'.symm.trans hm'))
  have hnd : (t.arena.nodes.flatMap Node.children).Nodup := List.nodup_flatMap.mpr
    ⟨fun n hn => h.nodup n.id n (Arena.get?_eq_some_iff.mpr ⟨hn, rfl⟩), hdisj⟩
  have hroot : t.root ∉ t.arena.nodes.flatMap Node.children := by
    intro hmem
    obtain ⟨p, hp⟩ := Arena.mem_flatMap_children_iff.mp hmem
    exact h.root_not_listed p hp
  refine (List.perm_ext_iff_of_nodup (List.nodup_cons.mpr ⟨hroot, hnd⟩)
    t.arena.nodup_ids).mpr fun x => ?_
  rw [List.mem_cons, Arena.mem_flatMap_children_iff, Arena.mem_ids_iff]
  constructor
  · intro hor
    rcases hor with rfl | ⟨p, hp⟩
    · obtain ⟨r, hr, _⟩ := h.root
      exact ⟨r, hr⟩
    · obtain ⟨n, hn, _⟩ := h.below p x hp
      exact ⟨n, hn⟩
  · intro hex
    obtain ⟨n, hn⟩ := hex
    by_cases hx : x = t.root
    · exact .inl hx
    · obtain ⟨p, _, hp⟩ := h.above x n hn hx
      exact .inr ⟨p, hp⟩

/-- In a tree the walk leaves nothing unmet. -/
theorem Rooted.childFault?_eq_none (h : t.Rooted) : t.childFault? = none := by
  obtain ⟨rest, hmeet, htally, hsub, hgone⟩ := meet_of_tally (t := t) h.tally
  refine childFault?_eq_none_iff.mpr ⟨rest, hmeet, Arena.size_eq_zero_of_get? fun id => ?_⟩
  -- what is left unmet would be closed upwards, and the root has been met
  have hroot : ¬ ∃ n, rest.get? t.root = some n := by
    intro hex
    obtain ⟨n, hn⟩ := hex
    rw [hgone t.root (List.mem_singleton_self _)] at hn
    exact absurd hn (by simp)
  have hup : ∀ p c, t.arena.Lists p c → (∃ n, rest.get? c = some n) →
      ∃ n, rest.get? p = some n := by
    intro p c hl hc
    have hlisted := htally.symm.subset (Arena.mem_ids_iff.mpr hc)
    obtain ⟨q, m, hm, hcm⟩ := Arena.mem_flatMap_children_iff.mp hlisted
    rw [h.lister_unique hl ⟨m, hsub q m hm, hcm⟩]
    exact ⟨m, hm⟩
  cases hq : rest.get? id with
  | none => rfl
  | some n => exact absurd ⟨n, hq⟩ (h.avoids hroot hup (hsub id n hq))

theorem Rooted.rootFault?_eq_none (h : t.Rooted) : t.rootFault? = none := by
  obtain ⟨r, hr, hmark, hnone⟩ := h.root
  have hfilter : (t.arena.nodes.filter Node.isRoot).Perm [r] := by
    refine (List.perm_ext_iff_of_nodup (t.arena.nodup_nodes.filter _)
      (List.nodup_singleton r)).mpr fun n => ?_
    rw [List.mem_filter, List.mem_singleton]
    constructor
    · intro hex
      obtain ⟨hn, hnr⟩ := hex
      have hn' := Arena.get?_eq_some_iff.mpr ⟨hn, rfl⟩
      rw [h.marked n.id n hn' hnr] at hn'
      exact Option.some.inj (hn'.symm.trans hr)
    · rintro rfl
      exact ⟨Arena.mem_of_get? hr, hmark⟩
  refine rootFault?_eq_none_iff.mpr ⟨hfilter.length_eq, ?_⟩
  rw [rootNode_of_get? hr]
  exact ⟨hmark, hnone⟩

/--
**The check decides what a tree is.**

It finds no fault exactly in the arenas that are a tree below their root.
-/
theorem intact_iff_rooted : t.Intact ↔ t.Rooted := by
  refine ⟨rooted_of_intact, fun h => intact_iff_no_fault.mpr
    ⟨h.rootFault?_eq_none, fun n hn => ?_, h.childFault?_eq_none⟩⟩
  have hn' : t.get? n.id = some n := Arena.get?_eq_some_iff.mpr ⟨hn, rfl⟩
  refine linkFault?_eq_none_iff.mpr ?_
  by_cases hid : n.id = t.root
  · obtain ⟨r, hr, hmark, _⟩ := h.root
    rw [hid, hr] at hn'
    exact .inl (Option.some.inj hn' ▸ hmark)
  · exact .inr (h.above n.id n hn' hid)

end Tree

end TermShell
