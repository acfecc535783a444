import Mathlib.Data.List.Induction
import Mathlib.Data.List.Perm.Subperm
import TermShell.Proofs.Tree.Verdict
import TermShell.Tree.Address

/-!
# The way down to a node

A trail is the list of nodes that one passes on the way from the root down to a node, the root
left out and the node included. In a tree every node has a trail (`Rooted.exists_trail`), and no
node is passed twice, so that a trail is shorter than the tree has nodes
(`Rooted.length_trail_lt`).

Two functions of the model go up instead of down: the path of a node collects names, and the
links upwards can be counted. Both read the trail backwards. The walk up that collects names is
cut short after as many steps as there are nodes, and by the bound on trails that never happens
in a tree.
-/

namespace TermShell.Tree

variable {t : Tree}

/-- The nodes from below the root down to the node, each a child of the one before. -/
inductive Trail (t : Tree) : List Node → Node → Prop where
  | root {r : Node} : t.get? t.root = some r → Trail t [] r
  | step {above : List Node} {p n : Node} :
      Trail t above p → t.get? n.id = some n → n.id ∈ p.children → Trail t (above ++ [n]) n

/-- The number reached from a number by following the links upwards `k` times. -/
def climb (t : Tree) : Nat → Nat → Option Nat
  | 0, id => some id
  | k + 1, id => ((t.get? id).bind Node.parent).bind (t.climb k)

/-! ## Trails and numbers -/

theorem Trail.get? {trail : List Node} {n : Node} (h : t.Trail trail n) :
    t.get? n.id = some n := by
  cases h with
  | root hr => rwa [id_of_get? hr]
  | step _ hn _ => exact hn

theorem Trail.lists {above : List Node} {p n : Node} (h : t.Trail above p)
    (hc : n.id ∈ p.children) : t.arena.Lists p.id n.id := ⟨p, h.get?, hc⟩

/-- What is passed on the way to a node is there, and leads to the node. -/
theorem Trail.leads {trail : List Node} {n a : Node} (h : t.Trail trail n) (ha : a ∈ trail) :
    t.get? a.id = some a ∧ t.arena.Leads a.id n.id := by
  induction h with
  | root _ => exact absurd ha (by simp)
  | step habove hn hc ih =>
    rcases List.mem_append.mp ha with ha | ha
    · obtain ⟨hget, hleads⟩ := ih ha
      exact ⟨hget, hleads.step (habove.lists hc)⟩
    · obtain rfl := List.mem_singleton.mp ha
      exact ⟨hn, .refl⟩

/-- What is passed before the last node is a directory. -/
theorem Trail.isDirectory {trail : List Node} {n : Node} (h : t.Trail trail n)
    (hn : n.isDirectory = true) : ∀ a ∈ trail, a.isDirectory = true := by
  induction h with
  | root _ => exact fun a ha => absurd ha (by simp)
  | step _ _ hc ih =>
    intro a ha
    rcases List.mem_append.mp ha with ha | ha
    · exact ih (Node.isDirectory_of_mem_children hc) a ha
    · exact List.mem_singleton.mp ha ▸ hn

/-- The last step of a trail. -/
theorem Trail.of_concat {above : List Node} {m n : Node} (h : t.Trail (above ++ [m]) n) :
    m = n ∧ ∃ p, t.Trail above p ∧ t.get? n.id = some n ∧ n.id ∈ p.children := by
  generalize htrail : above ++ [m] = trail at h
  cases h with
  | root _ => exact absurd htrail (by simp)
  | @step above' p _ habove hn hc =>
    obtain ⟨rfl, hlast⟩ := List.append_inj' htrail rfl
    exact ⟨(List.cons.inj hlast).1, p, habove, hn, hc⟩

/-- A trail leads to one node. -/
theorem Trail.end_unique {trail : List Node} {n n' : Node} (h : t.Trail trail n)
    (h' : t.Trail trail n') : n' = n := by
  generalize htrail : trail = trail' at h'
  cases h with
  | root hr =>
    cases h' with
    | root hr' => exact Option.some.inj (hr'.symm.trans hr)
    | step _ _ _ => exact absurd htrail (by simp)
  | step _ _ _ => exact (htrail ▸ h').of_concat.1.symm

/-- What a trail begins with is a trail. -/
theorem Trail.exists_of_append {above below : List Node} {n : Node}
    (h : t.Trail (above ++ below) n) : ∃ a, t.Trail above a := by
  induction below using List.reverseRecOn generalizing n with
  | nil => exact ⟨n, by rwa [List.append_nil] at h⟩
  | append_singleton below m ih =>
    rw [← List.append_assoc] at h
    obtain ⟨_, p, hp, _⟩ := h.of_concat
    exact ih hp

/-- The names on the way to a node do not depend on where the user is. -/
theorem names_withCurrent (t : Tree) (id : Nat) (n : Node) :
    ({ t with current := id } : Tree).names n = t.names n := by
  have hup : ∀ limit (m : Node),
      ({ t with current := id } : Tree).namesUp limit m = t.namesUp limit m := by
    intro limit
    induction limit with
    | zero => exact fun m => rfl
    | succ limit ih =>
      intro m
      simp only [namesUp, ih]
      rfl
  exact congrArg List.reverse (hup _ n)

namespace Rooted

theorem exists_trail (h : t.Rooted) {n : Node} (hn : t.get? n.id = some n) :
    ∃ trail, t.Trail trail n := by
  have key : ∀ x, t.arena.Leads t.root x → ∀ m, t.get? x = some m → ∃ trail, t.Trail trail m := by
    intro x hx
    induction hx with
    | refl => exact fun m hm => ⟨[], .root hm⟩
    | @tail y z _ hl ih =>
      intro m hm
      obtain ⟨p, hp, hc⟩ := hl
      obtain ⟨above, habove⟩ := ih p hp
      obtain rfl := id_of_get? hm
      exact ⟨above ++ [m], .step habove hm hc⟩
  exact key n.id (h.reached n.id n hn) n hn

theorem ne_root_of_mem_trail (h : t.Rooted) {trail : List Node} {n a : Node}
    (ht : t.Trail trail n) (ha : a ∈ trail) : a.id ≠ t.root := by
  induction ht with
  | root _ => exact absurd ha (by simp)
  | step habove _ hc ih =>
    rcases List.mem_append.mp ha with ha | ha
    · exact ih ha
    · obtain rfl := List.mem_singleton.mp ha
      exact fun hid => h.root_not_listed _ (hid ▸ habove.lists hc)

/-- **A trail passes the nodes that lead to its end**, all but the root. -/
theorem mem_trail_iff (h : t.Rooted) {trail : List Node} {n a : Node} (ht : t.Trail trail n) :
    a ∈ trail ↔ t.get? a.id = some a ∧ a.id ≠ t.root ∧ t.arena.Leads a.id n.id := by
  constructor
  · intro ha
    obtain ⟨hget, hleads⟩ := ht.leads ha
    exact ⟨hget, h.ne_root_of_mem_trail ht ha, hleads⟩
  · intro hex
    obtain ⟨hget, hroot, hleads⟩ := hex
    induction ht with
    | root hr =>
      rw [id_of_get? hr] at hleads
      exact absurd hleads (h.not_leads_root hroot)
    | @step above p n habove hn hc ih =>
      rcases h.leads_lister (habove.lists hc) hleads with hid | hp
      · rw [hid, hget] at hn
        exact List.mem_append_right _ (List.mem_singleton.mpr (Option.some.inj hn))
      · exact List.mem_append_left _ (ih hp)

/-- **No node is passed twice**: what has been passed leads to the directory that lists the next
node, and the next node does not. -/
theorem nodup_trail (h : t.Rooted) {trail : List Node} {n : Node} (ht : t.Trail trail n) :
    trail.Nodup := by
  induction ht with
  | root _ => exact List.nodup_nil
  | @step above p n habove hn hc ih =>
    have hnot : n ∉ above := fun hmem =>
      h.not_leads_up (habove.lists hc) (habove.leads hmem).2
    exact ih.append (List.nodup_singleton n) (List.disjoint_singleton.mpr hnot)

/-- **A trail is shorter than the tree has nodes**, for the root is not on it. -/
theorem length_trail_lt (h : t.Rooted) {trail : List Node} {n : Node} (ht : t.Trail trail n) :
    trail.length < t.size := by
  obtain ⟨r, hr, _⟩ := h.root
  have hnot : r ∉ trail := fun hmem => h.ne_root_of_mem_trail ht hmem (id_of_get? hr)
  have hsub : (r :: trail) ⊆ t.arena.nodes := by
    intro a ha
    rcases List.mem_cons.mp ha with rfl | ha
    · exact Arena.mem_of_get? hr
    · exact Arena.mem_of_get? (ht.leads ha).1
  have hle := (List.subperm_of_subset (List.nodup_cons.mpr ⟨hnot, h.nodup_trail ht⟩) hsub).length_le
  exact hle

/-! ## The way up -/

theorem up_of_trail (h : t.Rooted) {above : List Node} {p n : Node} (habove : t.Trail above p)
    (hn : t.get? n.id = some n) (hc : n.id ∈ p.children) :
    n.isRoot = false ∧ n.parent = some p.id := by
  have hl := habove.lists hc
  refine ⟨Bool.eq_false_iff.mpr fun hmark => ?_, h.parent_eq hl hn⟩
  exact h.root_not_listed _ (h.marked n.id n hn hmark ▸ hl)

/-- The directory above a node is the one that is passed before it. -/
theorem parentOf_of_trail (h : t.Rooted) {above : List Node} {p n : Node} (habove : t.Trail above p)
    (hn : t.get? n.id = some n) (hc : n.id ∈ p.children) : t.parentOf n = p := by
  have hp := directory?_eq_some_iff.mpr ⟨habove.get?, Node.isDirectory_of_mem_children hc⟩
  rw [parentOf, (h.up_of_trail habove hn hc).2, Option.bind_some, hp, Option.getD_some]

/-- **The links upwards lead back along the trail.** -/
theorem climb_of_trail (h : t.Rooted) {above below : List Node} {a n : Node}
    (ha : t.Trail above a) (hn : t.Trail (above ++ below) n) :
    t.climb below.length n.id = some a.id := by
  induction below using List.reverseRecOn generalizing n with
  | nil =>
    rw [List.append_nil] at hn
    rw [ha.end_unique hn]
    rfl
  | append_singleton below m ih =>
    rw [← List.append_assoc] at hn
    obtain ⟨_, p, hp, hget, hc⟩ := hn.of_concat
    rw [List.length_append, List.length_singleton, climb, hget, Option.bind_some,
      (h.up_of_trail hp hget hc).2, Option.bind_some]
    exact ih hp

/-- At the end of all links there is the root. -/
theorem climb_trail (h : t.Rooted) {trail : List Node} {n : Node} (ht : t.Trail trail n) :
    t.climb trail.length n.id = some t.root := by
  obtain ⟨r, hr, _⟩ := h.root
  rw [h.climb_of_trail (.root hr) ht, id_of_get? hr]

/-- **What the links upwards lead to has been passed on the way down.** -/
theorem trail_of_climb (h : t.Rooted) {k : Nat} {a n : Node} (ha : t.get? a.id = some a)
    (hn : t.get? n.id = some n) (hk : t.climb k n.id = some a.id) :
    ∃ above below, t.Trail above a ∧ t.Trail (above ++ below) n ∧ below.length = k := by
  induction k generalizing n with
  | zero =>
    obtain ⟨trail, htrail⟩ := h.exists_trail hn
    have hsame : a = n := Option.some.inj ((Option.some.inj hk ▸ ha).symm.trans hn)
    exact ⟨trail, [], hsame ▸ htrail, by rwa [List.append_nil], rfl⟩
  | succ k ih =>
    rw [climb, hn, Option.bind_some] at hk
    obtain ⟨p, hparent, hclimb⟩ := Option.bind_eq_some_iff.mp hk
    -- the root has nothing above it
    have hroot : n.id ≠ t.root := by
      intro hid
      obtain ⟨r, hr, _, hnone⟩ := h.root
      rw [← hid, hn] at hr
      rw [Option.some.inj hr, hnone] at hparent
      exact absurd hparent (by simp)
    obtain ⟨q, hq, m, hm, hc⟩ := h.above n.id n hn hroot
    obtain rfl := Option.some.inj (hq.symm.trans hparent)
    rw [← id_of_get? hm] at hclimb hm
    obtain ⟨above, below, habove, hbelow, hlength⟩ := ih hm hclimb
    refine ⟨above, below ++ [n], habove, ?_, by rw [List.length_append, hlength]; rfl⟩
    rw [← List.append_assoc]
    exact .step hbelow hn hc

/-- The names met on the way up are those of the trail, if the walk is not cut short. -/
theorem namesUp_trail (h : t.Rooted) {trail : List Node} {n : Node} (ht : t.Trail trail n)
    {limit : Nat} (hlimit : trail.length < limit) :
    t.namesUp limit n = (trail.map Node.fullName).reverse := by
  induction ht generalizing limit with
  | @root r hr =>
    obtain ⟨r', hr', hmark, _⟩ := h.root
    obtain rfl := Option.some.inj (hr.symm.trans hr')
    cases limit with
    | zero => exact absurd hlimit (Nat.not_lt_zero _)
    | succ limit => simp [namesUp, hmark]
  | @step above p n habove hn hc ih =>
    obtain ⟨hmark, hparent⟩ := h.up_of_trail habove hn hc
    cases limit with
    | zero => exact absurd hlimit (Nat.not_lt_zero _)
    | succ limit =>
      have hrest : above.length < limit := by simpa using hlimit
      simp [namesUp, hmark, hparent, habove.get?, ih hrest]

/-- **In a tree the names of a node are those of its trail**: the walk up is never cut short. -/
theorem names_trail (h : t.Rooted) {trail : List Node} {n : Node} (ht : t.Trail trail n) :
    t.names n = trail.map Node.fullName := by
  rw [names, h.namesUp_trail ht (Nat.lt_succ_of_lt (h.length_trail_lt ht)), List.reverse_reverse]

end Rooted

end TermShell.Tree
