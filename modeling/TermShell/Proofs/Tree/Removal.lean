import TermShell.Proofs.Tree.History

/-!
# What a removal takes away

A removal takes a number off the children of a directory and drops whatever that number then
leads to. In a tree that is the child with all below it. But the operation does not ask for a
tree: the lists of children may go round in circles, share a child, name it twice or name
nothing that is there, and the directory that listed the child may itself be dropped. What is
gone is in every case what can be reached once the number has been taken off, and nothing else
has changed (`Cut`).

The nodes are dropped in a loop over a pile of numbers, the last child of a node first.
`Arena.dropWithin` is this loop with a bound on how many numbers it may take. Every number that
is taken had been put on the pile when the node that lists it was dropped, and no node is dropped
twice. So one number for each place in a list of children is enough, and one more to begin with;
and in which order the numbers are taken makes no difference to what is left (`dropWithin_eq`).
-/

namespace TermShell

namespace Arena

variable {a : Arena} {id : Nat} {n : Node} {pending pending' rest : List Nat}

/-! ## The walk -/

theorem reach_cons_of_get? (hn : a.get? id = some n) :
    a.reach (id :: rest) = (n :: ((a.erase id).reach (n.children ++ rest)).1,
      ((a.erase id).reach (n.children ++ rest)).2) := by
  rw [reach]
  split
  · rename_i m hm
    obtain rfl := Option.some.inj (hm.symm.trans hn)
    rfl
  · rename_i hm
    exact absurd (hm.symm.trans hn) (by simp)

theorem reach_cons_of_get?_eq_none (hn : a.get? id = none) :
    a.reach (id :: rest) = a.reach rest := by
  rw [reach]
  split
  · rename_i m hm
    exact absurd (hm.symm.trans hn) (by simp)
  · rfl

theorem leadsAny_singleton_iff {x : Nat} : a.LeadsAny [id] x ↔ a.Leads id x := by
  constructor
  · rintro ⟨s, hs, hx⟩
    rwa [List.mem_singleton.mp hs] at hx
  · exact fun hx => ⟨id, List.mem_singleton_self id, hx⟩

/-- **The order of the pending numbers makes no difference to what remains**, nor does it matter
how often one is pending. -/
theorem remains_congr (h : ∀ s, s ∈ pending ↔ s ∈ pending') :
    (a.reach pending).2 = (a.reach pending').2 := by
  have hany : ∀ x, a.LeadsAny pending x ↔ a.LeadsAny pending' x := by
    intro x
    simp only [LeadsAny, h]
  refine ext_get? fun x => ?_
  by_cases hx : a.LeadsAny pending x
  · rw [(get?_reach a pending x).1 hx, (get?_reach a pending' x).1 ((hany x).mp hx)]
  · rw [(get?_reach a pending x).2 hx, (get?_reach a pending' x).2 fun hx' => hx ((hany x).mpr hx')]

/-- The nodes that are met and those that remain are all the nodes. -/
theorem perm_reach (a : Arena) (pending : List Nat) :
    ((a.reach pending).1 ++ (a.reach pending).2.nodes).Perm a.nodes := by
  fun_induction Arena.reach a pending with
  | case1 a => exact .refl _
  | case2 a id rest n hn below ih => exact (ih.cons n).trans (nodes_perm_erase hn).symm
  | case3 a id rest hn ih => exact ih

theorem size_reach (a : Arena) (pending : List Nat) :
    (a.reach pending).2.size + (a.reach pending).1.length = a.size := by
  have hlength := (a.perm_reach pending).length_eq
  rw [List.length_append] at hlength
  rw [size, size, ← hlength, Nat.add_comm]

theorem nodup_ids_reach (a : Arena) (pending : List Nat) :
    ((a.reach pending).1.map Node.id).Nodup := by
  have hnodup := (((a.perm_reach pending).map Node.id).nodup_iff).mpr a.nodup_ids
  rw [List.map_append] at hnodup
  exact (List.nodup_append.mp hnodup).1

/-- **What is met is what the pending numbers lead to**, as far as it is there. -/
theorem mem_ids_reach_iff {x : Nat} :
    x ∈ (a.reach pending).1.map Node.id ↔ (∃ n, a.get? x = some n) ∧ a.LeadsAny pending x := by
  have hperm := (a.perm_reach pending).map Node.id
  have hnodup := hperm.nodup_iff.mpr a.nodup_ids
  rw [List.map_append] at hperm hnodup
  have hapart := (List.nodup_append.mp hnodup).2.2
  constructor
  · intro hx
    have hthere := mem_ids_iff.mp (hperm.subset (List.mem_append_left _ hx))
    refine ⟨hthere, ?_⟩
    by_contra hno
    rw [← (get?_reach a pending x).2 hno] at hthere
    exact hapart x hx x (mem_ids_iff.mpr hthere) rfl
  · rintro ⟨hthere, hany⟩
    rcases List.mem_append.mp (hperm.symm.subset (mem_ids_iff.mpr hthere)) with hx | hx
    · exact hx
    · obtain ⟨n, hn⟩ := mem_ids_iff.mp hx
      exact absurd (hn.symm.trans ((get?_reach a pending x).1 hany)) (by simp)

/-! ## The loop -/

/-- How many places there are in the lists of children. -/
def places (a : Arena) : Nat := (a.nodes.flatMap Node.children).length

theorem places_eq_of_get? (hn : a.get? id = some n) :
    a.places = n.children.length + (a.erase id).places := by
  rw [places, ((nodes_perm_erase hn).flatMap_right Node.children).length_eq, List.flatMap_cons,
    List.length_append, places]

/-- Takes numbers from a pile and drops their nodes, whose children go on the pile. Gives up when
more than `limit` numbers would have to be taken. -/
def dropWithin : Nat → Arena → List Nat → Option Arena
  | _, a, [] => some a
  | 0, _, _ :: _ => none
  | limit + 1, a, id :: rest =>
    match a.get? id with
    | some n => dropWithin limit (a.erase id) (n.children.reverse ++ rest)
    | none => dropWithin limit a rest

/-- **The loop comes to its end**, and leaves what remains of the walk. -/
theorem dropWithin_eq {limit : Nat} (hlimit : pending.length + a.places ≤ limit) :
    dropWithin limit a pending = some (a.reach pending).2 := by
  fun_induction dropWithin limit a pending with
  | case1 limit a => rw [reach]
  | case2 a id rest =>
    rw [List.length_cons] at hlimit
    omega
  | case3 limit a id rest n hn ih =>
    -- the places of `n` go with it, and as many numbers come on the pile
    have hplaces := places_eq_of_get? hn
    rw [List.length_cons] at hlimit
    have horder : ((a.erase id).reach (n.children.reverse ++ rest)).2 =
        ((a.erase id).reach (n.children ++ rest)).2 := by
      refine remains_congr fun s => ?_
      rw [List.mem_append, List.mem_append, List.mem_reverse]
    rw [ih (by rw [List.length_append, List.length_reverse]; omega), reach_cons_of_get? hn, horder]
  | case4 limit a id rest hn ih =>
    rw [List.length_cons] at hlimit
    rw [ih (by omega), reach_cons_of_get?_eq_none hn]

/-- Arenas in which the same numbers are in use have as many nodes. -/
theorem size_eq_of_ids {b : Arena}
    (h : ∀ x, (∃ n, a.get? x = some n) ↔ ∃ n, b.get? x = some n) : a.size = b.size := by
  have hperm : (a.nodes.map Node.id).Perm (b.nodes.map Node.id) :=
    (List.perm_ext_iff_of_nodup a.nodup_ids b.nodup_ids).mpr fun x => by
      rw [mem_ids_iff, mem_ids_iff, h]
  have hlength := hperm.length_eq
  rwa [List.length_map, List.length_map] at hlength

end Arena

namespace Tree

variable {t t' : Tree} {p id : Nat} {d : Node}

/-! ## One place less -/

theorem ids_unlisted (hd : t.get? p = some d) (x : Nat) :
    (∃ n, (t.unlisted d id).get? x = some n) ↔ ∃ n, t.get? x = some n := by
  rw [get?_unlisted hd]
  split
  · rename_i hx
    rw [hx]
    exact iff_of_true ⟨_, rfl⟩ ⟨d, hd⟩
  · exact Iff.rfl

theorem size_unlisted (hd : t.get? p = some d) (id : Nat) : (t.unlisted d id).size = t.size :=
  Arena.size_eq_of_ids (ids_unlisted hd)

/--
**In `t'` the number `id` is off the children of `d`, at the first place where it stood, and what
it then leads to is gone.**
-/
structure Cut (t : Tree) (d : Node) (id : Nat) (t' : Tree) : Prop where
  /-- The loop that drops the nodes has come to its end. -/
  ends : Arena.dropWithin ((t.unlisted d id).places + 1) (t.unlisted d id) [id] = some t'.arena
  /-- Of what was there, that is gone which `id` leads to from now on, and no more. -/
  gone : ∀ x n, t.get? x = some n → (t'.get? x = none ↔ (t.unlisted d id).Leads id x)
  /-- What is left is as it was, except that `d` has one place less in its list. -/
  left : ∀ x n', t'.get? x = some n' → ∃ n, t.get? x = some n ∧
    n' = if x = d.id then n.withChildren (n.children.erase id) else n
  /-- There are fewer nodes, by as many as are gone. -/
  size : ∃ xs : List Nat, xs.Nodup ∧
    (∀ x, x ∈ xs ↔ (∃ n, t.get? x = some n) ∧ t'.get? x = none) ∧ t'.size + xs.length = t.size
  root : t'.root = t.root
  /-- The current directory is kept if its number still stands for something. -/
  stayed : (∃ n, t'.get? t.current = some n) → t'.current = t.current
  /-- Otherwise `d` takes its place, be it there or not. -/
  moved : t'.get? t.current = none → t'.current = d.id

theorem cut_pruned (hd : t.get? p = some d) : t.Cut d id (t.pruned p d id) := by
  obtain rfl := id_of_get? hd
  have hgone : ∀ x n, t.get? x = some n →
      ((t.pruned d.id d id).get? x = none ↔ (t.unlisted d id).Leads id x) := by
    intro x n hn
    refine ⟨fun hnone => ?_, get?_pruned_of_leads⟩
    by_contra hx
    rw [get?_pruned_of_not_leads hd hx] at hnone
    split at hnone
    · exact absurd hnone (by simp)
    · exact absurd (hn.symm.trans hnone) (by simp)
  refine ⟨?_, hgone, fun x n' hn' => ?_, ?_, rfl, current_pruned_of_some, current_pruned_of_none⟩
  · exact Arena.dropWithin_eq (Nat.le_of_eq (Nat.add_comm ..))
  · have hx : ¬ (t.unlisted d id).Leads id x := by
      intro hx
      exact absurd (hn'.symm.trans (get?_pruned_of_leads hx)) (by simp)
    rw [get?_pruned_of_not_leads hd hx] at hn'
    split at hn'
    · rename_i hxd
      exact ⟨d, hxd ▸ hd, by rw [if_pos hxd, Option.some.inj hn']⟩
    · rename_i hxd
      exact ⟨n', hn', (if_neg hxd).symm⟩
  · -- the numbers of the nodes that the walk meets are those of the nodes that are gone
    refine ⟨((t.unlisted d id).reach [id]).1.map Node.id, Arena.nodup_ids_reach .., fun x => ?_, ?_⟩
    · rw [Arena.mem_ids_reach_iff, ids_unlisted hd, Arena.leadsAny_singleton_iff]
      refine and_congr_right fun hthere => ?_
      obtain ⟨n, hn⟩ := hthere
      exact (hgone x n hn).symm
    · rw [List.length_map, ← size_unlisted hd id]
      exact Arena.size_reach _ _

theorem cut_of_remove (h : t.remove p id = .ok (t', true)) :
    ∃ d, t.directory? p = some d ∧ id ∈ d.children ∧ id ≠ t.root ∧ t.Cut d id t' := by
  obtain ⟨d, hroot, hd, hid, rfl⟩ := of_remove h
  exact ⟨d, hd, hid, hroot, cut_pruned (directory?_eq_some_iff.mp hd).1⟩

/-- Something is removed if it is listed and is not the root, and only then. -/
theorem remove_eq_ok_iff :
    (∃ t', t.remove p id = .ok (t', true)) ↔ id ≠ t.root ∧ t.arena.Lists p id := by
  constructor
  · rintro ⟨t', h⟩
    obtain ⟨d, hd, hid, hroot, _⟩ := cut_of_remove h
    exact ⟨hroot, d, (directory?_eq_some_iff.mp hd).1, hid⟩
  · rintro ⟨hroot, d, hd, hid⟩
    have hdir := Node.isDirectory_of_mem_children hid
    rcases remove_cases t p id with
      ⟨he, _⟩ | ⟨hnone, _⟩ | ⟨f, hf, hfile, _⟩ | ⟨hnot, _⟩ | ⟨_, _, _, _, he⟩
    · exact absurd he hroot
    · exact absurd (hd.symm.trans hnone) (by simp)
    · rw [Option.some.inj (hf.symm.trans hd), hdir] at hfile
      exact absurd hfile (by simp)
    · exact absurd ⟨d, hd, hid⟩ hnot
    · exact ⟨_, he⟩

/-- In a tree nothing leads back to the directory that listed `id`, so that all goes which `id`
leads to and the directory stays. -/
theorem Rooted.gone_iff (h : t.Rooted) (hr : t.remove p id = .ok (t', true)) {x : Nat} {n : Node}
    (hn : t.get? x = some n) : t'.get? x = none ↔ t.arena.Leads id x := by
  obtain ⟨d, hd, hid, _, hcut⟩ := cut_of_remove hr
  rw [hcut.gone x n hn, h.leads_unlisted_iff hd hid]

/--
**A removal takes away what can be reached, and nothing else.**

On any tree, however its nodes refer to each other: a number is removed from a directory exactly
if the directory lists it and it is not that of the root. Then the loop comes to its end, and of
the nodes those are gone which the number leads to once it is off the list, with the first place
in which it stood. All other nodes are as they were, but for that place, and the current
directory is the old one if it is still there and else the directory that listed the number. If
the tree is intact, what is gone is the child with all below it, and the directory is still there.
Where nothing is removed, nothing changes.
-/
theorem remove_cuts (t : Tree) (p id : Nat) :
    ((∃ t', t.remove p id = .ok (t', true)) ↔ id ≠ t.root ∧ t.arena.Lists p id) ∧
    (∀ t', t.remove p id = .ok (t', true) → ∃ d, t.directory? p = some d ∧ t.Cut d id t' ∧
      (t.Intact →
        (∃ xs : List Nat, xs.Nodup ∧ t'.size + xs.length = t.size ∧
          ∀ x n, t.get? x = some n →
            (t'.get? x = none ↔ t.arena.Leads id x) ∧ (x ∈ xs ↔ t.arena.Leads id x)) ∧
        (t'.get? t.current = none → t'.current = p ∧ ∃ d', t'.directory? p = some d'))) ∧
    (((Edit.remove p id).perform t).2 ≠ .ok true ∨ id = t.root →
      ((Edit.remove p id).perform t).1 = t) := by
  refine ⟨remove_eq_ok_iff, fun t' hr => ?_, fun hno => ?_⟩
  · obtain ⟨d, hd, hid, _, hcut⟩ := cut_of_remove hr
    refine ⟨d, hd, hcut, fun ht => ?_⟩
    have h := intact_iff_rooted.mp ht
    have hrem := h.removed_of_remove hr
    constructor
    · obtain ⟨xs, hnodup, hxs, hsize⟩ := hcut.size
      refine ⟨xs, hnodup, hsize, fun x n hn => ⟨h.gone_iff hr hn, ?_⟩⟩
      rw [hxs, ← h.gone_iff hr hn]
      exact and_iff_right ⟨n, hn⟩
    · intro hnone
      exact ⟨hrem.moved hnone, hrem.directory?_of_directory? hd (h.not_leads_up hrem.listed)⟩
  · refine perform_eq_self ?_
    rcases hno with hno | rfl
    · exact hno
    · simp [Edit.perform, remove]

/-- Nothing is right here: `1` and `3` list each other, the root lists `1` twice, `1` lists `3`
twice, and nothing has the number `9`. -/
def tangle : Tree :=
  ⟨0, 3, Arena.ofList [
    (Node.root 0 .userRead).withChildren [1, 2, 1],
    (Node.directory 1 0 "knot" .userReadWrite).withChildren [3, 9, 3],
    Node.file 2 0 "loose" none "" .userReadWrite,
    (Node.directory 3 1 "loop" .userReadWrite).withChildren [1]]⟩

/-- What `tangle` loses with `1`. The root still lists it, twice. -/
def frayed : Arena := .ofList [
  (Node.root 0 .userRead).withChildren [1, 2, 1],
  Node.file 2 0 "loose" none "" .userReadWrite]

/-- When `3` no longer lists `1`, it is still listed by `1` and so goes with it. The current
directory is then one that is gone. In the standard layout it goes with all that belongs to the
users, and the root takes its place. -/
theorem remove_cuts_tangle :
    (∃ t' d, tangle.remove 3 1 = .ok (t', true) ∧ tangle.directory? 3 = some d ∧
      tangle.Cut d 1 t' ∧ t'.arena = frayed ∧ t'.current = 3) ∧
    ∃ t' d, Layout.tree.remove 0 44 = .ok (t', true) ∧ Layout.tree.Cut d 44 t' ∧
      t'.size + 8 = Layout.tree.size ∧ t'.get? Layout.tree.current = none ∧
      t'.directory? 0 = some t'.currentDirectory := by
  constructor
  · obtain ⟨t', hr⟩ := (remove_cuts tangle 3 1).1.mpr
      ⟨by decide, _, (rfl : tangle.get? 3 = some _), by decide⟩
    obtain ⟨d, hd, hcut, _⟩ := (remove_cuts tangle 3 1).2.1 t' hr
    obtain rfl := Option.some.inj ((rfl : tangle.directory? 3 = some _).symm.trans hd)
    have harena : t'.arena = frayed := Option.some.inj (hcut.ends.symm.trans (by decide +kernel))
    refine ⟨t', _, hr, hd, hcut, harena, hcut.moved ?_⟩
    rw [get?, harena]
    decide +kernel
  · obtain ⟨t', hr⟩ := (remove_cuts Layout.tree 0 44).1.mpr
      ⟨by decide +kernel, _, (rfl : Layout.tree.get? 0 = some _), by decide +kernel⟩
    obtain ⟨d, hd, hcut, hwhole⟩ := (remove_cuts Layout.tree 0 44).2.1 t' hr
    have hroot : Layout.tree.directory? 0 = some Layout.tree.rootNode := by decide +kernel
    obtain rfl := Option.some.inj (hroot.symm.trans hd)
    -- the loop can be carried out, and says what is left
    have harena := congrArg (Option.map fun a => (a.size, a.get? Layout.tree.current)) hcut.ends
    have hleft := harena.symm.trans
      (show _ = some (Layout.tree.size - 8, none) by decide +kernel)
    obtain ⟨hsize, hnone⟩ := Prod.mk.inj (Option.some.inj hleft)
    obtain ⟨hmoved, r, hr'⟩ := (hwhole sound_standard.intact).2 hnone
    refine ⟨t', _, hr, hcut, ?_, hnone, ?_⟩
    · rw [show t'.size = _ from hsize]
      decide +kernel
    · rw [currentDirectory_of_directory? (hmoved.symm ▸ hr'), hr']

end Tree

end TermShell
