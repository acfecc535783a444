import TermShell.Proofs.Tree.Trails

/-!
# What the check of the shape accepts

The check asks three questions of a tree, and each of them leaves much open. It is meant to find
out whether the nodes form a rooted tree, and `Arborescence` says what that is without any walk:
by links upwards, by counting how often a number is listed, and by asking that the links lead to
the root. The check and the definition agree on every arena, however its nodes refer to each
other, and the walk of the check comes to an end on each of them
(`check_decides_arborescence`).

`Rooted`, to which the check has been reduced before, describes the same arenas from the root
downwards. Counting is what makes the difference: that nothing is listed twice is one condition
on all lists of children together here, and several conditions on single nodes there.
-/

namespace TermShell.Tree

variable {t : Tree}

/-- How often a number is listed, by all directories together. -/
def timesListed (t : Tree) (c : Nat) : Nat := (t.arena.nodes.flatMap Node.children).count c

/-- The nodes of the tree form a tree with the root on top. -/
structure Arborescence (t : Tree) : Prop where
  /-- The root is there, is marked as one and has nothing above it. -/
  root : ∃ r, t.get? t.root = some r ∧ r.isRoot = true ∧ r.parent = none
  /-- Nothing else has the mark of a root. -/
  marked : ∀ id n, t.get? id = some n → n.isRoot = true → id = t.root
  /-- Everything else has a directory above it. -/
  above : ∀ id n, t.get? id = some n → id ≠ t.root →
    ∃ p d, n.parent = some p ∧ t.directory? p = some d
  /-- What is listed is listed only once, is there, and is listed by the directory above it. -/
  listed : ∀ p c, t.arena.Lists p c → t.timesListed c = 1 ∧
    ∃ n q, t.get? c = some n ∧ n.parent = some q ∧ t.arena.Lists q c
  /-- The root is listed nowhere. -/
  root_unlisted : t.timesListed t.root = 0
  /-- Everything else is listed. -/
  others_listed : ∀ id n, t.get? id = some n → id ≠ t.root → ∃ p, t.arena.Lists p id
  /-- The links upwards lead to the root, in fewer steps than there are nodes. -/
  climbs : ∀ id n, t.get? id = some n → ∃ k < t.size, t.climb k id = some t.root

/-! ## Counting listings -/

theorem timesListed_eq_zero_iff {c : Nat} : t.timesListed c = 0 ↔ ∀ p, ¬ t.arena.Lists p c := by
  rw [timesListed, List.count_eq_zero, Arena.mem_flatMap_children_iff, not_exists]

theorem count_children_le {p : Nat} {n : Node} (hn : t.get? p = some n) (c : Nat) :
    n.children.count c ≤ t.timesListed c := by
  rw [timesListed, ((Arena.nodes_perm_erase hn).flatMap_right Node.children).count_eq c,
    List.flatMap_cons, List.count_append]
  exact Nat.le_add_right _ _

/-- What two directories list is listed twice. -/
theorem lister_unique_of_timesListed {p q c : Nat} (hone : t.timesListed c = 1)
    (hp : t.arena.Lists p c) (hq : t.arena.Lists q c) : p = q := by
  by_contra hne
  obtain ⟨n, hn, hcn⟩ := hp
  obtain ⟨m, hm, hcm⟩ := hq
  -- with `p` set apart, `q` is still among the others
  have hother : (t.arena.erase p).Lists q c :=
    ⟨m, by rw [Arena.get?_erase, if_neg (Ne.symm hne)]; exact hm, hcm⟩
  have hfirst : 1 ≤ n.children.count c := List.one_le_count_iff.mpr hcn
  have hrest : 1 ≤ ((t.arena.erase p).nodes.flatMap Node.children).count c :=
    List.one_le_count_iff.mpr (Arena.mem_flatMap_children_iff.mpr ⟨q, hother⟩)
  rw [timesListed, ((Arena.nodes_perm_erase hn).flatMap_right Node.children).count_eq c,
    List.flatMap_cons, List.count_append] at hone
  omega

/-! ## Both descriptions mean the same -/

theorem Rooted.timesListed_eq_one (h : t.Rooted) {p c : Nat} (hl : t.arena.Lists p c) :
    t.timesListed c = 1 := by
  have hnd : (t.arena.nodes.flatMap Node.children).Nodup :=
    (List.nodup_cons.mp (h.tally.nodup_iff.mpr t.arena.nodup_ids)).2
  exact List.count_eq_one_of_mem hnd (Arena.mem_flatMap_children_iff.mpr ⟨p, hl⟩)

theorem Rooted.arborescence (h : t.Rooted) : t.Arborescence where
  root := h.root
  marked := h.marked
  above := by
    intro id n hn hid
    obtain ⟨p, hp, d, hd, hc⟩ := h.above id n hn hid
    exact ⟨p, d, hp, directory?_eq_some_iff.mpr ⟨hd, Node.isDirectory_of_mem_children hc⟩⟩
  listed := by
    intro p c hl
    obtain ⟨n, hn, hp⟩ := h.below p c hl
    exact ⟨h.timesListed_eq_one hl, n, p, hn, hp, hl⟩
  root_unlisted := timesListed_eq_zero_iff.mpr h.root_not_listed
  others_listed := by
    intro id n hn hid
    obtain ⟨p, _, hl⟩ := h.above id n hn hid
    exact ⟨p, hl⟩
  climbs := by
    intro id n hn
    obtain rfl := id_of_get? hn
    obtain ⟨trail, htrail⟩ := h.exists_trail hn
    exact ⟨trail.length, h.length_trail_lt htrail, h.climb_trail htrail⟩

namespace Arborescence

theorem lists_above (h : t.Arborescence) {id : Nat} {n : Node} (hn : t.get? id = some n)
    (hid : id ≠ t.root) : ∃ p, n.parent = some p ∧ t.arena.Lists p id := by
  obtain ⟨p, hl⟩ := h.others_listed id n hn hid
  obtain ⟨_, m, q, hm, hq, hlq⟩ := h.listed p id hl
  obtain rfl := Option.some.inj (hn.symm.trans hm)
  exact ⟨q, hq, hlq⟩

/-- Where the links upwards lead to the root, the root leads down. -/
theorem leads_of_climb (h : t.Arborescence) {k id : Nat} (hk : t.climb k id = some t.root) :
    t.arena.Leads t.root id := by
  induction k generalizing id with
  | zero => exact Option.some.inj hk ▸ .refl
  | succ k ih =>
    obtain ⟨p, hp, hclimb⟩ := Option.bind_eq_some_iff.mp hk
    obtain ⟨n, hn, hnp⟩ := Option.bind_eq_some_iff.mp hp
    by_cases hid : id = t.root
    · exact hid ▸ .refl
    · obtain ⟨q, hq, hl⟩ := h.lists_above hn hid
      obtain rfl := Option.some.inj (hnp.symm.trans hq)
      exact (ih hclimb).step hl

theorem rooted (h : t.Arborescence) : t.Rooted where
  root := h.root
  marked := h.marked
  above := fun _ _ hn hid => h.lists_above hn hid
  below := by
    intro p c hl
    obtain ⟨hone, n, q, hn, hq, hlq⟩ := h.listed p c hl
    exact ⟨n, hn, by rw [hq, lister_unique_of_timesListed hone hlq hl]⟩
  nodup := by
    intro id n hn
    refine List.nodup_iff_count_le_one.mpr fun c => ?_
    by_cases hc : c ∈ n.children
    · rw [← (h.listed id c ⟨n, hn, hc⟩).1]
      exact count_children_le hn c
    · rw [List.count_eq_zero.mpr hc]
      exact Nat.zero_le 1
  reached := by
    intro id n hn
    obtain ⟨k, _, hk⟩ := h.climbs id n hn
    exact h.leads_of_climb hk

end Arborescence

theorem rooted_iff_arborescence : t.Rooted ↔ t.Arborescence :=
  ⟨Rooted.arborescence, Arborescence.rooted⟩

/-! ## The walk comes to an end -/

/-- The walk of the check, given up when more than `limit` numbers have been taken. -/
def meetWithin (t : Tree) : Nat → Arena → List Nat → Option (Except TreeError Arena)
  | _, unmet, [] => some (.ok unmet)
  | 0, _, _ :: _ => none
  | limit + 1, unmet, id :: rest =>
    match unmet.get? id with
    | some n => t.meetWithin limit (unmet.erase id) (n.children.reverse ++ rest)
    | none =>
      if t.arena.contains id then some (.error (.corrupted (.reachedTwice id)))
      else some (.error (.notFound id))

/-- **The walk takes one number for each node, and at most one more.** -/
theorem meetWithin_eq {u : Arena} {pending : List Nat} {limit : Nat} (hlimit : u.size < limit) :
    t.meetWithin limit u pending = some (t.meet u pending) := by
  obtain ⟨limit, rfl⟩ := Nat.exists_eq_add_one_of_ne_zero (Nat.ne_of_gt (Nat.zero_lt_of_lt hlimit))
  fun_induction Tree.meet t u pending generalizing limit with
  | case1 u => rfl
  | case2 u id rest n hn ih =>
    -- what has been met is no longer in the arena, so that less remains to be walked
    have hless := Arena.size_erase_lt hn
    cases limit with
    | zero => omega
    | succ limit =>
      rw [meetWithin, hn]
      exact ih limit (by omega)
  | case3 u id rest hn hin =>
    rw [meetWithin, hn]
    exact if_pos hin
  | case4 u id rest hn hin =>
    rw [meetWithin, hn]
    exact if_neg hin

/--
**The check decides whether the nodes form a rooted tree.**

On every tree the walk of the check ends, after at most one step more than there are nodes. And
the check finds no fault exactly if the root alone is marked and has nothing above it, all else
has a directory above it, what is listed is there and is listed once, by the directory above it,
the root is listed nowhere and all else is, and the links upwards lead from every node to the
root in fewer steps than there are nodes.
-/
theorem check_decides_arborescence (t : Tree) :
    t.meetWithin (t.size + 1) t.arena [t.root] = some (t.meet t.arena [t.root]) ∧
      (t.fault? = none ↔ t.Arborescence) :=
  ⟨meetWithin_eq (Nat.lt_succ_self _), intact_iff_rooted.trans rooted_iff_arborescence⟩

end TermShell.Tree
