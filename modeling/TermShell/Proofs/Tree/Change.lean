import TermShell.Proofs.Tree.Rooted
import TermShell.Tree.Edit

/-!
# What a change changes

Each operation of `TermShell.Tree.Edit` computes a new arena. Here its effect is said by what
every number stands for afterwards: one node is new and one list of children is longer
(`Appended`), a node and all below it are gone and one list of children is shorter
(`Removed`), or one node is another (`Altered`). Whatever is not mentioned is as before.

All later reasoning about changed trees goes through these three.
-/

namespace TermShell.Tree

/-- In `t'` the new node `n`, which has no children, is the last child of `p`. -/
structure Appended (t : Tree) (p : Nat) (n : Node) (t' : Tree) : Prop where
  root : t'.root = t.root
  current : t'.current = t.current
  /-- The number of the node was not in use. -/
  fresh : t.get? n.id = none
  childless : n.children = []
  parent : n.parent = some p
  unmarked : n.isRoot = false
  new : t'.get? n.id = some n
  into : ∃ d, t.directory? p = some d ∧ t'.get? p = some (d.withChildren (d.children ++ [n.id]))
  others : ∀ x, x ≠ n.id → x ≠ p → t'.get? x = t.get? x

/-- In `t'` the child `id` of `p` is gone, with all that it leads to. -/
structure Removed (t : Tree) (p id : Nat) (t' : Tree) : Prop where
  root : t'.root = t.root
  listed : t.arena.Lists p id
  gone : ∀ x, t.arena.Leads id x → t'.get? x = none
  out : ∃ d, t.directory? p = some d ∧ t'.get? p = some (d.withChildren (d.children.erase id))
  others : ∀ x, ¬ t.arena.Leads id x → x ≠ p → t'.get? x = t.get? x
  /-- The current directory stays if it is still there. -/
  stayed : (∃ n, t'.get? t.current = some n) → t'.current = t.current
  /-- Otherwise `p` takes its place. -/
  moved : t'.get? t.current = none → t'.current = p

/-- In `t'` the node `n` has become `n'`. -/
structure Altered (t : Tree) (n n' : Node) (t' : Tree) : Prop where
  root : t'.root = t.root
  current : t'.current = t.current
  before : t.get? n.id = some n
  after : t'.get? n.id = some n'
  others : ∀ x, x ≠ n.id → t'.get? x = t.get? x

variable {t t' : Tree}

/-! ## Making a directory current -/

theorem setCurrent_cases (t : Tree) (id : Nat) :
    (t.directory? id = none ∧ t.setCurrent id = none) ∨
      ∃ d, t.directory? id = some d ∧ t.setCurrent id = some { t with current := id } := by
  unfold setCurrent
  cases hd : t.directory? id with
  | none => exact .inl ⟨rfl, rfl⟩
  | some d => exact .inr ⟨d, rfl, rfl⟩

/-! ## Appending -/

theorem insert_cases (t : Tree) (p : Nat) (n : Node) :
    (t.get? p = none ∧ t.insert p n = .error (.notFound p)) ∨
      (∃ f, t.get? p = some f ∧ f.isDirectory = false ∧
        t.insert p n = .error (.notADirectory p)) ∨
      ∃ d, t.directory? p = some d ∧ t.insert p n = .ok (t.withArena
        ((t.arena.put (d.withChildren (d.children ++ [n.id]))).put
          { n with parent := some p, isRoot := false })) := by
  unfold insert
  cases hp : t.get? p with
  | none => exact .inl ⟨rfl, rfl⟩
  | some d =>
    cases hd : d.isDirectory with
    | false => exact .inr (.inl ⟨d, rfl, hd, by simp [hd]⟩)
    | true => exact .inr (.inr ⟨d, directory?_eq_some_iff.mpr ⟨hp, hd⟩, by simp [hd]⟩)

/-- What every number stands for after an insertion, whatever had the number of `n` before. -/
theorem get?_of_insert {p : Nat} {n : Node} (h : t.insert p n = .ok t') :
    ∃ d, t.directory? p = some d ∧ t'.root = t.root ∧ t'.current = t.current ∧ ∀ x, t'.get? x =
      if x = n.id then some { n with parent := some p, isRoot := false }
      else if x = p then some (d.withChildren (d.children ++ [n.id])) else t.get? x := by
  rcases insert_cases t p n with ⟨_, he⟩ | ⟨_, _, _, he⟩ | ⟨d, hd, he⟩
  · exact absurd (he.symm.trans h) (by simp)
  · exact absurd (he.symm.trans h) (by simp)
  · obtain rfl := Except.ok.inj (he.symm.trans h)
    refine ⟨d, hd, rfl, rfl, fun x => ?_⟩
    simp only [get?, withArena, Arena.get?_put, Node.id_withChildren,
      id_of_get? (directory?_eq_some_iff.mp hd).1]

/-- **Inserting a new node without children appends it.** -/
theorem appended_of_insert {p : Nat} {n : Node} (h : t.insert p n = .ok t')
    (hfresh : t.get? n.id = none) (hnil : n.children = []) :
    t.Appended p { n with parent := some p, isRoot := false } t' := by
  obtain ⟨d, hd, hroot, hcurrent, hget⟩ := get?_of_insert h
  have hne : p ≠ n.id := by
    intro he
    rw [← he, (directory?_eq_some_iff.mp hd).1] at hfresh
    exact absurd hfresh (by simp)
  refine ⟨hroot, hcurrent, hfresh, hnil, rfl, rfl, ?_, ⟨d, hd, ?_⟩, fun x hx hxp => ?_⟩
  · rw [hget, if_pos rfl]
  · rw [hget, if_neg hne, if_pos rfl]
  · rw [hget, if_neg hx, if_neg hxp]

/-! ## Altering one node -/

/-- Storing a node under the number of one that is there alters that one. -/
theorem altered_of_put {n n' : Node} (hn : t.get? n.id = some n) (hid : n'.id = n.id) :
    t.Altered n n' (t.withArena (t.arena.put n')) := by
  refine ⟨rfl, rfl, hn, ?_, fun x hx => ?_⟩
  · exact (Arena.get?_put ..).trans (if_pos hid.symm)
  · exact (Arena.get?_put ..).trans (if_neg (hid ▸ hx))

theorem setPermissions_cases (t : Tree) (id : Nat) (permissions : PermissionSet) :
    (t.get? id = none ∧ t.setPermissions id permissions = .error (.notFound id)) ∨
      ∃ n t', t.get? id = some n ∧ t.setPermissions id permissions = .ok t' ∧
        t.Altered n { n with permissions } t' := by
  unfold setPermissions
  cases hn : t.get? id with
  | none => exact .inl ⟨rfl, rfl⟩
  | some n => exact .inr ⟨n, _, rfl, rfl, altered_of_put ((id_of_get? hn).symm ▸ hn) rfl⟩

theorem write_cases (t : Tree) (id : Nat) (contents : String) :
    (t.get? id = none ∧ t.write id contents = .error (.notFound id)) ∨
      (∃ d, t.get? id = some d ∧ d.isFile = false ∧
        t.write id contents = .error (.notAFile id)) ∨
      ∃ n t', t.get? id = some n ∧ n.isFile = true ∧ t.write id contents = .ok t' ∧
        t.Altered n (n.withContents contents) t' := by
  unfold write
  cases hn : t.get? id with
  | none => exact .inl ⟨rfl, rfl⟩
  | some n =>
    cases hf : n.isFile with
    | false => exact .inr (.inl ⟨n, rfl, hf, by simp [hf]⟩)
    | true =>
      have halt := altered_of_put ((id_of_get? hn).symm ▸ hn) (n.id_withContents contents)
      exact .inr (.inr ⟨n, _, rfl, hf, by simp [hf], halt⟩)

/-! ## Removing -/

/-- The arena in which `d` does not list `id`, at least not where it listed it first. -/
def unlisted (t : Tree) (d : Node) (id : Nat) : Arena :=
  t.arena.put (d.withChildren (d.children.erase id))

/-- The tree in which `d` does not list `id` and all that `id` then leads to is gone. -/
def pruned (t : Tree) (p : Nat) (d : Node) (id : Nat) : Tree :=
  let arena := (t.unlisted d id).prune id
  ⟨t.root, if arena.contains t.current then t.current else p, arena⟩

theorem remove_cases (t : Tree) (p id : Nat) :
    (id = t.root ∧ t.remove p id = .error .rootRemoval) ∨
      (t.get? p = none ∧ t.remove p id = .error (.notFound p)) ∨
      (∃ f, t.get? p = some f ∧ f.isDirectory = false ∧
        t.remove p id = .error (.notADirectory p)) ∨
      (¬ t.arena.Lists p id ∧ t.remove p id = .ok (t, false)) ∨
      ∃ d, id ≠ t.root ∧ t.directory? p = some d ∧ id ∈ d.children ∧
        t.remove p id = .ok (t.pruned p d id, true) := by
  unfold remove
  by_cases hroot : id = t.root
  · exact .inl ⟨hroot, by simp [hroot]⟩
  rw [if_neg hroot]
  right
  cases hp : t.get? p with
  | none => exact .inl ⟨rfl, rfl⟩
  | some d =>
    right
    cases hd : d.isDirectory with
    | false => exact .inl ⟨d, rfl, hd, by simp [hd]⟩
    | true =>
      right
      by_cases hid : id ∈ d.children
      · refine .inr ⟨d, hroot, directory?_eq_some_iff.mpr ⟨hp, hd⟩, hid, ?_⟩
        simp only [hd, hid, if_true]
        rfl
      · refine .inl ⟨?_, by simp [hd, hid]⟩
        intro hex
        obtain ⟨m, hm, hc⟩ := hex
        rw [Option.some.inj (hm.symm.trans hp)] at hc
        exact hid hc

theorem get?_unlisted {p : Nat} {d : Node} (hd : t.get? p = some d) (id x : Nat) :
    (t.unlisted d id).get? x =
      if x = p then some (d.withChildren (d.children.erase id)) else t.get? x := by
  simp only [unlisted, Arena.get?_put, Node.id_withChildren, id_of_get? hd, get?]

theorem lists_of_lists_unlisted {p : Nat} {d : Node} (hd : t.directory? p = some d) {id q c : Nat}
    (h : (t.unlisted d id).Lists q c) : t.arena.Lists q c := by
  obtain ⟨hp, hdir⟩ := directory?_eq_some_iff.mp hd
  obtain ⟨n, hn, hc⟩ := h
  rw [get?_unlisted hp] at hn
  split at hn
  · rename_i hq
    obtain rfl := Option.some.inj hn
    rw [Node.children_withChildren _ hdir] at hc
    exact ⟨d, hq ▸ hp, List.mem_of_mem_erase hc⟩
  · exact ⟨n, hn, hc⟩

/-- In a tree it makes no difference for what `id` leads to whether `id` is still listed: no
chain from `id` comes back to the directory above it. -/
theorem Rooted.leads_unlisted_iff (h : t.Rooted) {p : Nat} {d : Node}
    (hd : t.directory? p = some d) {id : Nat} (hid : id ∈ d.children) (x : Nat) :
    (t.unlisted d id).Leads id x ↔ t.arena.Leads id x := by
  have hp := (directory?_eq_some_iff.mp hd).1
  constructor
  · exact fun hx => hx.mono fun _ _ => lists_of_lists_unlisted hd
  · intro hx
    induction hx with
    | refl => exact .refl
    | @tail y z hy hz ih =>
      -- only the children of `p` have changed, and the chain does not pass there
      have hyp : y ≠ p := fun he => h.not_leads_up ⟨d, hp, hid⟩ (he ▸ hy)
      obtain ⟨n, hn, hc⟩ := hz
      exact ih.step ⟨n, by rw [get?_unlisted hp, if_neg hyp]; exact hn, hc⟩

theorem get?_pruned_of_leads {p : Nat} {d : Node} {id x : Nat}
    (hx : (t.unlisted d id).Leads id x) : (t.pruned p d id).get? x = none :=
  Arena.get?_prune_of_leads hx

theorem get?_pruned_of_not_leads {p : Nat} {d : Node} (hd : t.get? p = some d) {id x : Nat}
    (hx : ¬ (t.unlisted d id).Leads id x) :
    (t.pruned p d id).get? x =
      if x = p then some (d.withChildren (d.children.erase id)) else t.get? x :=
  (Arena.get?_prune_of_not_leads hx).trans (get?_unlisted hd id x)

theorem current_pruned_of_some {p : Nat} {d : Node} {id : Nat}
    (h : ∃ n, (t.pruned p d id).get? t.current = some n) :
    (t.pruned p d id).current = t.current :=
  if_pos (Option.isSome_iff_exists.mpr h)

theorem current_pruned_of_none {p : Nat} {d : Node} {id : Nat}
    (h : (t.pruned p d id).get? t.current = none) : (t.pruned p d id).current = p := by
  refine if_neg fun hs => ?_
  obtain ⟨n, hn⟩ := Option.isSome_iff_exists.mp hs
  exact absurd (h.symm.trans hn) (by simp)

/-- Something has been removed only by pruning the tree. -/
theorem of_remove {p id : Nat} (hr : t.remove p id = .ok (t', true)) :
    ∃ d, id ≠ t.root ∧ t.directory? p = some d ∧ id ∈ d.children ∧ t' = t.pruned p d id := by
  rcases remove_cases t p id with
    ⟨_, he⟩ | ⟨_, he⟩ | ⟨_, _, _, he⟩ | ⟨_, he⟩ | ⟨d, hroot, hd, hid, he⟩
  · exact absurd (he.symm.trans hr) (by simp)
  · exact absurd (he.symm.trans hr) (by simp)
  · exact absurd (he.symm.trans hr) (by simp)
  · exact absurd (he.symm.trans hr) (by simp)
  · exact ⟨d, hroot, hd, hid, (Prod.mk.inj (Except.ok.inj (he.symm.trans hr))).1.symm⟩

/-- **Removing a listed node from a tree takes it away with all below it.** -/
theorem Rooted.removed_of_remove (h : t.Rooted) {p id : Nat}
    (hr : t.remove p id = .ok (t', true)) : t.Removed p id t' := by
  obtain ⟨d, _, hd, hid, rfl⟩ := of_remove hr
  have hp := (directory?_eq_some_iff.mp hd).1
  have hlist : t.arena.Lists p id := ⟨d, hp, hid⟩
  have hkept : ∀ x, ¬ t.arena.Leads id x → ¬ (t.unlisted d id).Leads id x := fun x hx hx' =>
    hx ((h.leads_unlisted_iff hd hid x).mp hx')
  refine ⟨rfl, hlist, fun x hx => ?_, ⟨d, hd, ?_⟩, fun x hx hxp => ?_, current_pruned_of_some,
    current_pruned_of_none⟩
  · exact get?_pruned_of_leads ((h.leads_unlisted_iff hd hid x).mpr hx)
  · rw [get?_pruned_of_not_leads hp (hkept p (h.not_leads_up hlist)), if_pos rfl]
  · rw [get?_pruned_of_not_leads hp (hkept x hx), if_neg hxp]

end TermShell.Tree
