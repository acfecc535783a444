import TermShell.Node

/-!
# Arenas

An arena is where the nodes of a tree are kept, each to be found by its number. It is a
list in increasing order of numbers, and that order is part of the type. So a number
stands for one node at most, and two arenas in which every number stands for the same
are equal (`Arena.ext_get?`): there is nothing more to an arena than what it answers.

Every operation is described by what `get?` finds afterwards.
-/

namespace TermShell

/-- In strictly increasing order of numbers. -/
def Ascending (ns : List Node) : Prop := ns.Pairwise fun a b => a.id < b.id

/-- Nodes to be found by number. -/
structure Arena where
  /-- The nodes, in increasing order of numbers. -/
  nodes : List Node
  ascending : Ascending nodes

namespace Arena

theorem eq_of_nodes_eq {a b : Arena} (h : a.nodes = b.nodes) : a = b := by
  cases a
  cases b
  cases h
  rfl

instance : DecidableEq Arena := fun a b =>
  match decEq a.nodes b.nodes with
  | isTrue h => isTrue (eq_of_nodes_eq h)
  | isFalse h => isFalse (fun e => h (congrArg Arena.nodes e))

/-- The arena without nodes. -/
def empty : Arena := ⟨[], List.Pairwise.nil⟩

/-- The node with this number. -/
def get? (a : Arena) (id : Nat) : Option Node := a.nodes.find? (·.id == id)

/-- Does any node have this number? -/
def contains (a : Arena) (id : Nat) : Bool := (a.get? id).isSome

/-- How many nodes there are. -/
def size (a : Arena) : Nat := a.nodes.length

/-! ## Storing a node -/

/-- A list of nodes with `n` at its place, instead of a node of the same number. -/
def putNode (n : Node) : List Node → List Node
  | [] => [n]
  | m :: ms =>
    if n.id < m.id then n :: m :: ms
    else if n.id = m.id then n :: ms
    else m :: putNode n ms

theorem mem_putNode {n x : Node} : ∀ {ms : List Node}, x ∈ putNode n ms → x = n ∨ x ∈ ms
  | [], h => by simpa [putNode] using h
  | m :: ms, h => by
    unfold putNode at h
    split at h
    · simpa using h
    · split at h
      · rcases List.mem_cons.mp h with h | h
        · exact .inl h
        · exact .inr (List.mem_cons_of_mem _ h)
      · rcases List.mem_cons.mp h with h | h
        · exact .inr (h ▸ List.mem_cons_self)
        · exact (mem_putNode h).imp id (List.mem_cons_of_mem _)

theorem ascending_putNode (n : Node) : ∀ {ms : List Node}, Ascending ms → Ascending (putNode n ms)
  | [], _ => List.pairwise_singleton _ _
  | m :: ms, h => by
    have hm := List.pairwise_cons.mp h
    unfold putNode
    split
    · rename_i hlt
      refine List.pairwise_cons.mpr ⟨fun x hx => ?_, h⟩
      rcases List.mem_cons.mp hx with rfl | hx
      · exact hlt
      · exact Nat.lt_trans hlt (hm.1 x hx)
    · split
      · rename_i heq
        exact List.pairwise_cons.mpr ⟨fun x hx => heq ▸ hm.1 x hx, hm.2⟩
      · rename_i hnlt hne
        refine List.pairwise_cons.mpr ⟨fun x hx => ?_, ascending_putNode n hm.2⟩
        rcases mem_putNode hx with rfl | hx
        · exact Nat.lt_of_le_of_ne (Nat.le_of_not_lt hnlt) (Ne.symm hne)
        · exact hm.1 x hx

/-- The arena in which `n` is stored under its number. -/
def put (a : Arena) (n : Node) : Arena := ⟨putNode n a.nodes, ascending_putNode n a.ascending⟩

/-- The arena that holds the listed nodes; of two with the same number the later one. -/
def ofList (ns : List Node) : Arena := ns.foldl put empty

/-- The arena without the node of this number. -/
def erase (a : Arena) (id : Nat) : Arena :=
  ⟨a.nodes.filter (·.id != id), a.ascending.filter _⟩

/-! ## What `get?` finds -/

theorem mem_of_get? {a : Arena} {id : Nat} {n : Node} (h : a.get? id = some n) :
    n ∈ a.nodes := List.mem_of_find?_eq_some h

theorem id_of_get? {a : Arena} {id : Nat} {n : Node} (h : a.get? id = some n) : n.id = id := by
  have := List.find?_some h
  simpa using this

theorem find?_eq_of_mem {n : Node} : ∀ {ns : List Node}, Ascending ns → n ∈ ns →
    ns.find? (·.id == n.id) = some n
  | m :: ms, h, hn => by
    have hm := List.pairwise_cons.mp h
    rcases List.mem_cons.mp hn with rfl | hn
    · simp
    · have hne : m.id ≠ n.id := Nat.ne_of_lt (hm.1 n hn)
      rw [List.find?_cons_of_neg (by simpa using hne)]
      exact find?_eq_of_mem hm.2 hn

/-- A number finds the nodes that are there under it, and no others. -/
theorem get?_eq_some_iff {a : Arena} {id : Nat} {n : Node} :
    a.get? id = some n ↔ n ∈ a.nodes ∧ n.id = id := by
  constructor
  · exact fun h => ⟨mem_of_get? h, id_of_get? h⟩
  · rintro ⟨hn, rfl⟩
    exact find?_eq_of_mem a.ascending hn

theorem get?_eq_none_iff {a : Arena} {id : Nat} : a.get? id = none ↔ ∀ n ∈ a.nodes, n.id ≠ id := by
  simp [get?]

@[simp] theorem get?_empty (id : Nat) : empty.get? id = none := rfl

theorem find?_putNode (n : Node) (id : Nat) : ∀ ms : List Node,
    (putNode n ms).find? (·.id == id) = if id = n.id then some n else ms.find? (·.id == id)
  | [] => by
    by_cases h : id = n.id
    · simp [putNode, h]
    · simp [putNode, h, Ne.symm h]
  | m :: ms => by
    unfold putNode
    by_cases h : id = n.id
    · subst h
      split
      · simp
      · split
        · simp
        · rename_i hne
          rw [List.find?_cons_of_neg (by simpa using Ne.symm hne), find?_putNode]
          simp
    · simp only [h, if_false]
      split
      · rw [List.find?_cons_of_neg (by simpa using Ne.symm h)]
      · split
        · rename_i heq
          rw [List.find?_cons_of_neg (by simpa using Ne.symm h),
            List.find?_cons_of_neg (by simpa [← heq] using Ne.symm h)]
        · by_cases hm : m.id = id
          · simp [hm]
          · rw [List.find?_cons_of_neg (by simpa using hm),
              List.find?_cons_of_neg (by simpa using hm), find?_putNode]
            simp [h]

/-- After storing a node its number stands for it, and all else is as before. -/
theorem get?_put (a : Arena) (n : Node) (id : Nat) :
    (a.put n).get? id = if id = n.id then some n else a.get? id :=
  find?_putNode n id a.nodes

/-- After erasing a number it stands for nothing, and all else is as before. -/
theorem get?_erase (a : Arena) (id' id : Nat) :
    (a.erase id').get? id = if id = id' then none else a.get? id := by
  simp only [get?, erase, List.find?_filter]
  by_cases h : id = id'
  · subst h
    simp
  · simp only [h, if_false]
    congr 1
    funext n
    by_cases hn : n.id = id
    · simp [hn, h]
    · simp [hn]

/-- No two nodes have one number. -/
theorem nodup_ids (a : Arena) : (a.nodes.map Node.id).Nodup :=
  (List.pairwise_map.mpr a.ascending).imp Nat.ne_of_lt

/-! ## Equality and size -/

theorem nodes_ext : ∀ {ns ms : List Node}, Ascending ns → Ascending ms →
    (∀ x, x ∈ ns ↔ x ∈ ms) → ns = ms
  | [], [], _, _, _ => rfl
  | [], m :: _, _, _, h => absurd ((h m).mpr List.mem_cons_self) (by simp)
  | n :: _, [], _, _, h => absurd ((h n).mp List.mem_cons_self) (by simp)
  | n :: ns, m :: ms, hn, hm, h => by
    have hn' := List.pairwise_cons.mp hn
    have hm' := List.pairwise_cons.mp hm
    have heq : n = m := by
      rcases List.mem_cons.mp ((h n).mp List.mem_cons_self) with e | e
      · exact e
      · rcases List.mem_cons.mp ((h m).mpr List.mem_cons_self) with e' | e'
        · exact e'.symm
        · exact absurd (hm'.1 n e) (Nat.lt_asymm (hn'.1 m e'))
    subst heq
    congr 1
    refine nodes_ext hn'.2 hm'.2 fun x => ⟨fun hx => ?_, fun hx => ?_⟩
    · rcases List.mem_cons.mp ((h x).mp (List.mem_cons_of_mem _ hx)) with rfl | e
      · exact absurd (hn'.1 x hx) (Nat.lt_irrefl _)
      · exact e
    · rcases List.mem_cons.mp ((h x).mpr (List.mem_cons_of_mem _ hx)) with rfl | e
      · exact absurd (hm'.1 x hx) (Nat.lt_irrefl _)
      · exact e

/-- An arena is determined by what its numbers stand for. -/
theorem ext_get? {a b : Arena} (h : ∀ id, a.get? id = b.get? id) : a = b := by
  have hmem : ∀ x, x ∈ a.nodes ↔ x ∈ b.nodes := by
    intro x
    have ha := @get?_eq_some_iff a x.id x
    have hb := @get?_eq_some_iff b x.id x
    simp only [and_true] at ha hb
    rw [← ha, ← hb, h]
  exact eq_of_nodes_eq (nodes_ext a.ascending b.ascending hmem)

/-- Erasing a node that is there leaves fewer. -/
theorem size_erase_lt {a : Arena} {id : Nat} {n : Node} (h : a.get? id = some n) :
    (a.erase id).size < a.size := by
  have hn := get?_eq_some_iff.mp h
  unfold size erase
  exact List.length_filter_lt_length_iff_exists.mpr ⟨n, hn.1, by simp [hn.2]⟩

theorem mem_nodes_erase {a : Arena} {id : Nat} {x : Node} (h : x ∈ (a.erase id).nodes) :
    x ∈ a.nodes := (List.mem_filter.mp h).1

/-! ## Unused numbers -/

/-- One more than the largest number in use. -/
def bound (a : Arena) : Nat := a.nodes.foldr (fun n b => max (n.id + 1) b) 0

theorem id_lt_foldr_max {n : Node} : ∀ {ns : List Node}, n ∈ ns →
    n.id < ns.foldr (fun m b => max (m.id + 1) b) 0
  | m :: ms, h => by
    rw [List.foldr_cons]
    rcases List.mem_cons.mp h with rfl | h
    · exact Nat.lt_of_lt_of_le (Nat.lt_succ_self _) (Nat.le_max_left _ _)
    · exact Nat.lt_of_lt_of_le (id_lt_foldr_max h) (Nat.le_max_right _ _)

/-- Numbers from the bound on are not in use. -/
theorem get?_eq_none_of_bound_le {a : Arena} {id : Nat} (h : a.bound ≤ id) :
    a.get? id = none := by
  refine get?_eq_none_iff.mpr fun n hn he => ?_
  have : n.id < a.bound := id_lt_foldr_max hn
  omega

end Arena

end TermShell
