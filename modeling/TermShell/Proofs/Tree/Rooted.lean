import TermShell.Proofs.Tree.Descent

/-!
# Rooted trees

What it means for an arena to be a tree, said of its nodes one by one and without any walk:
the root has nothing above it, every other node has one directory above it that lists it,
nothing is listed that is not there, and nothing lies apart from the root.

The last condition cannot be left out. Two directories that list each other satisfy all the
others. It is used in one form only, `Rooted.avoids`: whatever passes from a node up to the
directory above it and does not hold of the root holds of no node. That one directory cannot
lie below itself (`Rooted.not_leads_up`) is an instance.
-/

namespace TermShell

namespace Tree

/-- The arena of the tree is a tree below its root. -/
structure Rooted (t : Tree) : Prop where
  /-- The root is there, is marked as one and has nothing above it. -/
  root : ∃ r, t.get? t.root = some r ∧ r.isRoot = true ∧ r.parent = none
  /-- Nothing else has the mark of a root. -/
  marked : ∀ id n, t.get? id = some n → n.isRoot = true → id = t.root
  /-- Everything else is listed by the directory above it. -/
  above : ∀ id n, t.get? id = some n → id ≠ t.root →
    ∃ p, n.parent = some p ∧ t.arena.Lists p id
  /-- What a directory lists is there, and has that directory above it. -/
  below : ∀ p c, t.arena.Lists p c → ∃ n, t.get? c = some n ∧ n.parent = some p
  /-- No directory lists anything twice. -/
  nodup : ∀ id n, t.get? id = some n → n.children.Nodup
  /-- Everything lies below the root. -/
  reached : ∀ id n, t.get? id = some n → t.arena.Leads t.root id

theorem id_of_get? {t : Tree} {id : Nat} {n : Node} (h : t.get? id = some n) : n.id = id :=
  Arena.id_of_get? h

theorem directory?_eq_some_iff {t : Tree} {id : Nat} {n : Node} :
    t.directory? id = some n ↔ t.get? id = some n ∧ n.isDirectory = true := by
  simp [directory?, Option.filter_eq_some_iff]

theorem rootNode_of_get? {t : Tree} {r : Node} (h : t.get? t.root = some r) : t.rootNode = r := by
  simp [rootNode, h]

theorem currentDirectory_of_directory? {t : Tree} {d : Node} (h : t.directory? t.current = some d) :
    t.currentDirectory = d := by
  simp [currentDirectory, h]

/-- A node without children is all there is below it. -/
theorem alone_of_childless {t : Tree} {n : Node} (hn : t.get? n.id = some n)
    (hnil : n.children = []) {x : Nat} (hx : t.arena.Leads n.id x) : x = n.id := by
  refine Arena.eq_of_leads_of_childless (fun m hm => ?_) hx
  rwa [← Option.some.inj (hn.symm.trans hm)]

namespace Rooted

variable {t : Tree}

/-- A listed node has the directory that lists it above it. -/
theorem parent_eq (h : t.Rooted) {p c : Nat} (hl : t.arena.Lists p c) {n : Node}
    (hn : t.get? c = some n) : n.parent = some p := by
  obtain ⟨m, hm, hp⟩ := h.below p c hl
  rwa [Option.some.inj (hn.symm.trans hm)]

/-- Only one directory lists a node. -/
theorem lister_unique (h : t.Rooted) {p q c : Nat} (hp : t.arena.Lists p c)
    (hq : t.arena.Lists q c) : p = q := by
  obtain ⟨n, hn, hnp⟩ := h.below p c hp
  exact Option.some.inj (hnp.symm.trans (h.parent_eq hq hn))

/-- No directory lists the root. -/
theorem root_not_listed (h : t.Rooted) (p : Nat) : ¬ t.arena.Lists p t.root := by
  intro hl
  obtain ⟨r, hr, _, hnone⟩ := h.root
  rw [h.parent_eq hl hr] at hnone
  exact absurd hnone (by simp)

/-- **What passes upwards and spares the root spares every node.** -/
theorem avoids (h : t.Rooted) {S : Nat → Prop} (hroot : ¬ S t.root)
    (hup : ∀ p c, t.arena.Lists p c → S c → S p) {id : Nat} {n : Node}
    (hn : t.get? id = some n) : ¬ S id := by
  -- down from the root, one listing after the other
  have key : ∀ x, t.arena.Leads t.root x → ¬ S x := by
    intro x hx
    induction hx with
    | refl => exact hroot
    | tail _ hc ih => exact fun hs => ih (hup _ _ hc hs)
  exact key id (h.reached id n hn)

/-- What a listed node leads to is that node, or is listed by something it leads to. -/
theorem leads_lister (h : t.Rooted) {p id x : Nat} (hl : t.arena.Lists p x)
    (hx : t.arena.Leads id x) : x = id ∨ t.arena.Leads id p := by
  cases hx with
  | refl => exact .inl rfl
  | tail hy hc => exact .inr (h.lister_unique hc hl ▸ hy)

/-- Nothing but the root leads to the root. -/
theorem not_leads_root (h : t.Rooted) {id : Nat} (hid : id ≠ t.root) :
    ¬ t.arena.Leads id t.root := by
  intro hr
  cases hr with
  | refl => exact hid rfl
  | tail _ hc => exact h.root_not_listed _ hc

/-- **Nothing lies below itself.** A listed node does not lead back to what lists it. -/
theorem not_leads_up (h : t.Rooted) {p id : Nat} (hl : t.arena.Lists p id) :
    ¬ t.arena.Leads id p := by
  intro hp
  obtain ⟨n, hn, _⟩ := h.below p id hl
  have hid : id ≠ t.root := fun he => h.root_not_listed p (he ▸ hl)
  -- if `id` led to `p`, leading from `id` would pass upwards, also from `id` itself
  refine h.avoids (h.not_leads_root hid) (fun q c hqc hc => ?_) hn .refl
  rcases h.leads_lister hqc hc with rfl | hq
  · rwa [h.lister_unique hqc hl]
  · exact hq

end Rooted

end Tree

end TermShell
