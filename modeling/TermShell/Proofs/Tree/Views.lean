import TermShell.Proofs.Tree.Fence
import TermShell.Tree.Lookup

/-!
# Looking inside a fence

A lookup reads more of a tree than the node that it finds: the children of every directory on
the way could each have been the one that is meant. Where all of these stay fixed, the lookup
finds the same for ever. `enclosed` says so of one directory and `paved` of a whole path, and
both can be computed.
-/

namespace TermShell.Tree

variable {zone : Node → Zone} {t₀ t : Tree}

/-- Do all children of the directory stay fixed? -/
def enclosed (zone : Node → Zone) (t₀ : Tree) (n : Node) : Bool :=
  n.children.all fun c => (t₀.get? c).map zone == some .fixed

/-- Does the walk along the components only look at what stays fixed? -/
def paved (zone : Node → Zone) (t₀ : Tree) : Node → List String → Bool
  | _, [] => true
  | n, component :: rest =>
    component != ".." && enclosed zone t₀ n &&
      (t₀.enter n component).all fun m => paved zone t₀ m rest

theorem Keeps.childrenOf_eq (hk : Keeps zone t₀ t) {n : Node} (h : enclosed zone t₀ n = true) :
    t.childrenOf n = t₀.childrenOf n := by
  refine List.filterMap_congr fun c hc => ?_
  have hfixed := List.all_eq_true.mp h c hc
  obtain ⟨m, hm, hz⟩ := Option.map_eq_some_iff.mp (beq_iff_eq.mp hfixed)
  have hkept := hk c m hm
  rw [hz] at hkept
  rw [hm]
  exact hkept

theorem Keeps.findChild_eq (hk : Keeps zone t₀ t) {n : Node} (h : enclosed zone t₀ n = true)
    (name : String) (wanted : Node → Bool) :
    t.findChild n name wanted = t₀.findChild n name wanted := by
  rw [findChild, hk.childrenOf_eq h, findChild]

theorem Keeps.enter_eq (hk : Keeps zone t₀ t) {n : Node} (h : enclosed zone t₀ n = true)
    {component : String} (hc : component ≠ "..") : t.enter n component = t₀.enter n component := by
  unfold enter
  rw [if_neg hc, if_neg hc, hk.findChild_eq h]

theorem paved_cons {n : Node} {component : String} {rest : List String}
    (h : paved zone t₀ n (component :: rest) = true) :
    component ≠ ".." ∧ enclosed zone t₀ n = true ∧
      ∀ m, t₀.enter n component = some m → paved zone t₀ m rest = true := by
  simp only [paved, Bool.and_eq_true, bne_iff_ne] at h
  refine ⟨h.1.1, h.1.2, fun m hm => ?_⟩
  simpa [hm] using h.2

/-- **A paved walk leads to the same place for ever.** -/
theorem Keeps.foldlM_enter_eq (hk : Keeps zone t₀ t) {components : List String} {n : Node}
    (h : paved zone t₀ n components = true) :
    components.foldlM t.enter n = components.foldlM t₀.enter n := by
  induction components generalizing n with
  | nil => rfl
  | cons component rest ih =>
    -- the first step is the same in both trees, and the rest is paved from there
    obtain ⟨hdots, hencl, hnext⟩ := paved_cons h
    rw [List.foldlM_cons, List.foldlM_cons, hk.enter_eq hencl hdots]
    cases hm : t₀.enter n component with
    | none => rfl
    | some m => exact ih (hnext m hm)

/-! ## Paths from the root -/

theorem origin_rootNode (t : Tree) (path : String) : t.origin t.rootNode path = t.rootNode := by
  unfold origin
  split <;> rfl

section Root

variable (hk : Keeps zone t₀ t) (hroot : t.rootNode = t₀.rootNode) {path : String}
include hk hroot

theorem Keeps.walk_rootNode_eq {components : List String}
    (h : paved zone t₀ t₀.rootNode components = true) :
    t.walk t.rootNode components = t₀.walk t₀.rootNode components := by
  rw [walk, walk, hroot, hk.foldlM_enter_eq h]

/-- **A paved path from the root means the same directory for ever.** -/
theorem Keeps.findDirectory_rootNode_eq
    (h : paved zone t₀ t₀.rootNode (Path.components path) = true) :
    t.findDirectory t.rootNode path = t₀.findDirectory t₀.rootNode path := by
  rw [findDirectory, findDirectory, origin_rootNode, origin_rootNode,
    hk.walk_rootNode_eq hroot h]

/-- **A path from the root means the same file for ever**, if it is paved up to its last component
and the directory in which that one is looked for is enclosed. -/
theorem Keeps.findFile_rootNode_eq {front : List String}
    (hfront : (Path.components path).dropLast = front)
    (h : paved zone t₀ t₀.rootNode front = true)
    (hencl : ∀ d, t₀.walk t₀.rootNode front = some d → enclosed zone t₀ d = true) :
    t.findFile t.rootNode path = t₀.findFile t₀.rootNode path := by
  unfold findFile
  rw [hfront, origin_rootNode, origin_rootNode, hk.walk_rootNode_eq hroot h]
  cases (Path.components path).getLast? with
  | none => rfl
  | some name =>
    cases hd : t₀.walk t₀.rootNode front with
    | none => rfl
    | some d => exact hk.findChild_eq (hencl d hd) name Node.isFile

end Root

end TermShell.Tree
