import Mathlib.Data.Set.Finite.Basic
import Mathlib.Order.Preorder.Finite
import TermShell.Proofs.Tree.History
import TermShell.Proofs.Tree.Places
import TermShell.Proofs.Tree.Trails

/-!
# The way up

The path of a node is found on the way up, and in a tree whose links are broken there need not be
a top. So the walk counts its steps, and stops when they are more than there are nodes. The
question is whether this bound does what it is for and nothing else.

From a node the links lead to a node with the mark of the root, or to nothing, or for ever round in
a circle. In the first two cases the nodes passed are all different, for if one of them came again
the way would not end. With the exception of the first, which may be a node that the tree does not
have, they are nodes of the tree, and so there is at most one more of them than the bound allows to
be left behind: no name is lost (`Line.names_eq`). In the third case the walk takes one name more
than there are nodes and stops (`Circles.names_spec`). There is no fourth case
(`line_or_circles`).

All of this is true of every tree and of every node, also of one that the tree does not have. In an
intact tree the walk from a node of the tree ends before the steps are as many as the nodes.
-/

namespace TermShell.Tree

variable {t : Tree} {n : Node}

/-- The node to which the link upwards leads. -/
def above? (t : Tree) (n : Node) : Option Node := n.parent.bind t.get?

/-- The node at which one is after following `k` links upwards. -/
def ancestor? (t : Tree) : Nat → Node → Option Node
  | 0, n => some n
  | k + 1, n => (t.above? n).bind (t.ancestor? k)

/-- The nodes on the way up that ends, the node itself first. A node with the mark of the root
ends it and is not one of them. -/
inductive Line (t : Tree) : Node → List Node → Prop where
  | marked {n : Node} : n.isRoot = true → Line t n []
  | last {n : Node} : n.isRoot = false → t.above? n = none → Line t n [n]
  | link {n p : Node} {line : List Node} : n.isRoot = false → t.above? n = some p →
      Line t p line → Line t n (n :: line)

/-- The links lead round in a circle, without coming to a node with the mark of the root. -/
structure Circles (t : Tree) (n : Node) : Prop where
  /-- After some links one is at a node to which some more links lead back. -/
  round : ∃ tail length a, 0 < length ∧ t.ancestor? tail n = some a ∧
    t.ancestor? length a = some a
  unmarked : ∀ k a, t.ancestor? k n = some a → a.isRoot = false

/-! ## Following links -/

theorem ancestor?_add (j k : Nat) (n : Node) :
    t.ancestor? (j + k) n = (t.ancestor? j n).bind (t.ancestor? k) := by
  induction j generalizing n with
  | zero => rw [Nat.zero_add, ancestor?, Option.bind_some]
  | succ j ih =>
    rw [Nat.succ_add, ancestor?, ancestor?, Option.bind_assoc]
    exact Option.bind_congr fun p _ => ih p

/-- What links lead to is a node of the tree. -/
theorem mem_nodes_of_above? {p : Node} (h : t.above? n = some p) : p ∈ t.arena.nodes := by
  obtain ⟨id, _, hp⟩ := Option.bind_eq_some_iff.mp h
  exact Arena.mem_of_get? hp

theorem mem_nodes_of_ancestor? {k : Nat} {a : Node} (h : t.ancestor? (k + 1) n = some a) :
    a ∈ t.arena.nodes := by
  rw [ancestor?_add] at h
  obtain ⟨b, _, hb⟩ := Option.bind_eq_some_iff.mp h
  obtain ⟨p, hp, ha⟩ := Option.bind_eq_some_iff.mp hb
  exact Option.some.inj ha ▸ mem_nodes_of_above? hp

/-- A way that comes to a marked node or to nothing within some links has an end. -/
theorem exists_line {k : Nat} (h : ∀ a, t.ancestor? k n = some a → a.isRoot = true) :
    ∃ line, t.Line n line := by
  induction k generalizing n with
  | zero => exact ⟨[], .marked (h n rfl)⟩
  | succ k ih =>
    cases hmark : n.isRoot with
    | true => exact ⟨[], .marked hmark⟩
    | false =>
      cases hp : t.above? n with
      | none => exact ⟨[n], .last hmark hp⟩
      | some p =>
        obtain ⟨line, hline⟩ := ih fun a ha => h a (by rw [ancestor?, hp]; exact ha)
        exact ⟨n :: line, .link hmark hp hline⟩

/-- **The way up ends, or it leads round in a circle.** -/
theorem line_or_circles (t : Tree) (n : Node) : (∃ line, t.Line n line) ∨ t.Circles n := by
  by_cases hline : ∃ line, t.Line n line
  · exact .inl hline
  -- a way without an end has a node at every height, and the tree has finitely many
  have hgoes : ∀ k, ∃ a, t.ancestor? k n = some a ∧ a.isRoot = false := by
    intro k
    by_contra hnot
    refine hline (exists_line (k := k) fun a ha => ?_)
    by_contra hmark
    exact hnot ⟨a, ha, by simpa using hmark⟩
  choose f hf using hgoes
  have hnodes : ∀ k, f (k + 1) ∈ {m | m ∈ t.arena.nodes} := fun k =>
    mem_nodes_of_ancestor? (hf (k + 1)).1
  obtain ⟨i, j, hij, hsame⟩ := Set.Finite.exists_lt_map_eq_of_forall_mem hnodes
    (List.finite_toSet t.arena.nodes)
  refine .inr ⟨⟨i + 1, j - i, f (i + 1), by omega, (hf (i + 1)).1, ?_⟩, fun k a ha => ?_⟩
  · have hlater : t.ancestor? (i + 1 + (j - i)) n = some (f (i + 1)) := by
      rw [show i + 1 + (j - i) = j + 1 by omega, hsame]
      exact (hf (j + 1)).1
    rwa [ancestor?_add, (hf (i + 1)).1, Option.bind_some] at hlater
  · exact Option.some.inj ((hf k).1.symm.trans ha) ▸ (hf k).2

theorem namesUp_of_marked (h : n.isRoot = true) (limit : Nat) : t.namesUp limit n = [] := by
  cases limit with
  | zero => rfl
  | succ limit => rw [namesUp, if_pos h]

/-- A node that is not marked gives its name, and then the node above gives the others. -/
theorem namesUp_succ (h : n.isRoot = false) (limit : Nat) : t.namesUp (limit + 1) n =
    n.fullName :: ((t.above? n).map (t.namesUp limit)).getD [] := by
  rw [namesUp, h, above?]
  cases n.parent.bind t.get? with
  | none => rfl
  | some p => rfl

/-! ## Ways that end -/

theorem Line.unique {line line' : List Node} (h : t.Line n line) (h' : t.Line n line') :
    line = line' := by
  induction h generalizing line' with
  | marked hmark =>
    cases h' with
    | marked => rfl
    | last hmark' => exact absurd (hmark.symm.trans hmark') (by simp)
    | link hmark' => exact absurd (hmark.symm.trans hmark') (by simp)
  | last hmark hp =>
    cases h' with
    | marked hmark' => exact absurd (hmark.symm.trans hmark') (by simp)
    | last => rfl
    | link _ hp' => exact absurd (hp.symm.trans hp') (by simp)
  | link hmark hp _ ih =>
    cases h' with
    | marked hmark' => exact absurd (hmark.symm.trans hmark') (by simp)
    | last _ hp' => exact absurd (hp.symm.trans hp') (by simp)
    | link _ hp' hline =>
      obtain rfl := Option.some.inj (hp.symm.trans hp')
      rw [ih hline]

/-- From every node on the way the rest of it is the way. -/
theorem Line.rest {line : List Node} (h : t.Line n line) {a : Node} (ha : a ∈ line) :
    ∃ passed rest, line = passed ++ rest ∧ t.Line a rest := by
  induction h with
  | marked => exact absurd ha List.not_mem_nil
  | last hmark hp =>
    obtain rfl := List.mem_singleton.mp ha
    exact ⟨[], _, rfl, .last hmark hp⟩
  | @link n p line hmark hp hline ih =>
    rcases List.mem_cons.mp ha with rfl | ha
    · exact ⟨[], _, rfl, .link hmark hp hline⟩
    · obtain ⟨passed, rest, rfl, hrest⟩ := ih ha
      exact ⟨n :: passed, rest, rfl, hrest⟩

/-- **No node comes twice on a way that ends.** -/
theorem Line.nodup {line : List Node} (h : t.Line n line) : line.Nodup := by
  induction h with
  | marked => exact List.nodup_nil
  | last => exact List.nodup_singleton _
  | @link n p line hmark hp hline ih =>
    refine List.nodup_cons.mpr ⟨fun hmem => ?_, ih⟩
    -- otherwise the way from there would be shorter than itself
    obtain ⟨passed, rest, hsplit, hrest⟩ := hline.rest hmem
    have hlength := congrArg List.length (hrest.unique (.link hmark hp hline))
    rw [hsplit, List.length_cons, List.length_append] at hlength
    omega

theorem Line.subset {line : List Node} (h : t.Line n line) : line ⊆ n :: t.arena.nodes := by
  induction h with
  | marked => exact List.nil_subset _
  | last => exact List.cons_subset_cons _ (List.nil_subset _)
  | @link n p line _ hp _ ih =>
    refine List.cons_subset.mpr ⟨List.mem_cons_self, fun a ha => List.mem_cons_of_mem _ ?_⟩
    rcases List.mem_cons.mp (ih ha) with rfl | ha
    · exact mem_nodes_of_above? hp
    · exact ha

theorem Line.length_le {line : List Node} (h : t.Line n line) : line.length ≤ t.size + 1 :=
  (List.subperm_of_subset h.nodup h.subset).length_le

theorem Line.namesUp_eq {line : List Node} (h : t.Line n line) {limit : Nat}
    (hlimit : line.length ≤ limit) : t.namesUp limit n = line.map Node.fullName := by
  induction h generalizing limit with
  | marked hmark => exact namesUp_of_marked hmark limit
  | last hmark hp =>
    obtain ⟨limit, rfl⟩ := Nat.exists_eq_add_one_of_ne_zero (Nat.ne_of_gt hlimit)
    rw [namesUp_succ hmark, hp]
    rfl
  | link hmark hp _ ih =>
    obtain ⟨limit, rfl⟩ := Nat.exists_eq_add_one_of_ne_zero (Nat.ne_zero_of_lt hlimit)
    rw [namesUp_succ hmark, hp, Option.map_some, Option.getD_some,
      ih (Nat.le_of_succ_le_succ hlimit), List.map_cons]

/-- **On a way that ends no name is lost.** -/
theorem Line.names_eq {line : List Node} (h : t.Line n line) :
    t.names n = (line.map Node.fullName).reverse := by
  rw [names, h.namesUp_eq h.length_le]

/-! ## Circles -/

/-- It is enough to look for marked nodes until one has gone round once. -/
theorem circles_of_once {tail length : Nat} {a : Node} (hlength : 0 < length)
    (htail : t.ancestor? tail n = some a) (hround : t.ancestor? length a = some a)
    (hunmarked : ∀ k < tail + length, (t.ancestor? k n).any Node.isRoot = false) :
    t.Circles n := by
  refine ⟨⟨tail, length, a, hlength, htail, hround⟩, fun k b hb => ?_⟩
  induction k using Nat.strongRecOn with
  | ind k ih =>
    by_cases hk : k < tail + length
    · have hmark := hunmarked k hk
      rwa [hb, Option.any_some] at hmark
    · -- one round less leads to the same node
      refine ih (k - length) (by omega) ?_
      rw [← hb, show k = tail + (length + (k - length - tail)) by omega, ancestor?_add, htail,
        Option.bind_some, ancestor?_add, hround, Option.bind_some,
        show tail + (length + (k - length - tail)) - length = tail + (k - length - tail) by omega,
        ancestor?_add, htail, Option.bind_some]

/-- In a circle there is a node after any number of links. -/
theorem Circles.exists_ancestor (h : t.Circles n) (k : Nat) : ∃ a, t.ancestor? k n = some a := by
  obtain ⟨tail, length, a, hlength, htail, hround⟩ := h.round
  have hturns : ∀ turns, t.ancestor? (tail + turns * length) n = some a := by
    intro turns
    induction turns with
    | zero => rwa [Nat.zero_mul, Nat.add_zero]
    | succ turns ih => rw [Nat.succ_mul, ← Nat.add_assoc, ancestor?_add, ih, Option.bind_some, hround]
  have hfar : k ≤ tail + k * length :=
    Nat.le_trans (Nat.le_mul_of_pos_right k hlength) (Nat.le_add_left ..)
  have hlater := hturns k
  rw [← Nat.add_sub_cancel' hfar, ancestor?_add] at hlater
  obtain ⟨b, hb, _⟩ := Option.bind_eq_some_iff.mp hlater
  exact ⟨b, hb⟩

/-- As long as there are nodes above, and none of them is marked, their names are taken up to the
limit. -/
theorem namesUp_of_ancestors {limit : Nat}
    (h : ∀ k < limit, ∃ a, t.ancestor? k n = some a ∧ a.isRoot = false) :
    (t.namesUp limit n).length = limit ∧
      ∀ k < limit, (t.namesUp limit n)[k]? = (t.ancestor? k n).map Node.fullName := by
  induction limit generalizing n with
  | zero => exact ⟨rfl, fun k hk => absurd hk (Nat.not_lt_zero k)⟩
  | succ limit ih =>
    obtain ⟨_, hself, hmark⟩ := h 0 (Nat.zero_lt_succ limit)
    obtain rfl := Option.some.inj hself
    rw [namesUp_succ hmark]
    cases hp : t.above? n with
    | none =>
      -- then one name is all that is wanted
      obtain rfl : limit = 0 := by
        by_contra hne
        obtain ⟨a, ha, _⟩ := h 1 (by omega)
        rw [ancestor?, hp] at ha
        exact absurd ha (by simp)
      refine ⟨rfl, fun k hk => ?_⟩
      obtain rfl : k = 0 := by omega
      rfl
    | some p =>
      rw [Option.map_some, Option.getD_some]
      have hup := ih (n := p) fun k hk => by
        obtain ⟨a, ha, hunmarked⟩ := h (k + 1) (Nat.succ_lt_succ hk)
        rw [ancestor?, hp] at ha
        exact ⟨a, ha, hunmarked⟩
      refine ⟨by rw [List.length_cons, hup.1], fun k hk => ?_⟩
      cases k with
      | zero => rfl
      | succ k =>
        rw [List.getElem?_cons_succ, hup.2 k (Nat.lt_of_succ_lt_succ hk), ancestor?, hp,
          Option.bind_some]

/-- **In a circle the walk stops at one name more than there are nodes.** -/
theorem Circles.names_spec (h : t.Circles n) : (t.names n).length = t.size + 1 ∧
    ∀ k ≤ t.size, (t.names n).reverse[k]? = (t.ancestor? k n).map Node.fullName := by
  have hlink : ∀ k < t.size + 1, ∃ a, t.ancestor? k n = some a ∧ a.isRoot = false := by
    intro k _
    obtain ⟨a, ha⟩ := h.exists_ancestor k
    exact ⟨a, ha, h.unmarked k a ha⟩
  have hup := namesUp_of_ancestors hlink
  rw [names, List.length_reverse, List.reverse_reverse]
  exact ⟨hup.1, fun k hk => hup.2 k (Nat.lt_succ_of_le hk)⟩

/-! ## The walk, round by round -/

/-- How far the walk up has come: the names it has taken, the latest one last, the node where it
is, if there is one, and the number of its steps. -/
structure Ascent where
  names : List String
  here : Option Node
  steps : Nat

/-- The walk from a node before its first step. -/
def setOut (n : Node) : Ascent := ⟨[], some n, 0⟩

/-- One round of the walk; there is none at a marked node, and none when the steps are more than
there are nodes. -/
def round (t : Tree) (s : Ascent) : Option Ascent :=
  match s.here with
  | none => none
  | some n =>
    if n.isRoot || t.size < s.steps then none
    else some ⟨s.names ++ [n.fullName], t.above? n, s.steps + 1⟩

/-- What any number of rounds make of a walk. -/
def Rounds (t : Tree) : Ascent → Ascent → Prop :=
  Relation.ReflTransGen fun s s' => t.round s = some s'

/-- The names that the walk has still to take. -/
def namesAhead (t : Tree) (s : Ascent) : List String :=
  (s.here.map (t.namesUp (t.size + 1 - s.steps))).getD []

/-- Either the walk is at its end, or it takes the first of the names that lie ahead. -/
theorem round_cases (t : Tree) (s : Ascent) :
    (t.round s = none ∧ t.namesAhead s = []) ∨
      ∃ (n : Node) (s' : Ascent), s.steps ≤ t.size ∧ t.round s = some s' ∧ s'.names = s.names ++ [n.fullName] ∧
        s'.steps = s.steps + 1 ∧ t.namesAhead s = n.fullName :: t.namesAhead s' := by
  obtain ⟨names, here, steps⟩ := s
  cases here with
  | none => exact .inl ⟨rfl, rfl⟩
  | some n =>
    cases hmark : n.isRoot with
    | true => exact .inl ⟨by simp [round, hmark], namesUp_of_marked hmark _⟩
    | false =>
      by_cases hsteps : t.size < steps
      · refine .inl ⟨by simp [round, hsteps], ?_⟩
        rw [namesAhead, Nat.sub_eq_zero_of_le hsteps]
        rfl
      · have hle := Nat.le_of_not_lt hsteps
        refine .inr ⟨n, _, hle, by simp only [round, hmark, hsteps]; rfl, rfl, rfl, ?_⟩
        simp only [namesAhead, Option.map_some, Option.getD_some]
        rw [Nat.succ_sub hle, namesUp_succ hmark, Nat.add_sub_add_right]

/-- **A round takes the next name**, and counts it. -/
theorem round_spec {s s' : Ascent} (h : t.round s = some s') :
    s'.names ++ t.namesAhead s' = s.names ++ t.namesAhead s ∧ s'.steps = s.steps + 1 ∧
      s'.names.length = s.names.length + 1 ∧ s.steps ≤ t.size := by
  rcases t.round_cases s with ⟨hnone, _⟩ | ⟨n, next, hle, hsome, hnames, hsteps, hahead⟩
  · exact absurd (h.symm.trans hnone) (by simp)
  · obtain rfl := Option.some.inj (hsome.symm.trans h)
    refine ⟨?_, hsteps, by rw [hnames, List.length_append, List.length_singleton], hle⟩
    rw [hahead, hnames, List.append_assoc, List.singleton_append]

/-- What has been taken and what lies ahead are the names of the node at all times. -/
theorem Rounds.spec {s : Ascent} (h : t.Rounds (setOut n) s) :
    s.names ++ t.namesAhead s = t.namesUp (t.size + 1) n ∧ s.steps = s.names.length ∧
      s.steps ≤ t.size + 1 := by
  induction h with
  | refl => exact ⟨rfl, rfl, Nat.zero_le _⟩
  | tail _ hround ih =>
    obtain ⟨hnames, hsteps, hlength, hle⟩ := round_spec hround
    exact ⟨hnames.trans ih.1, by rw [hsteps, hlength, ih.2.1],
      by rw [hsteps]; exact Nat.succ_le_succ hle⟩

/-- **The walk comes to an end**, wherever it is. -/
theorem exists_last_round (t : Tree) (s : Ascent) : ∃ s', t.Rounds s s' ∧ t.round s' = none := by
  cases hround : t.round s with
  | none => exact ⟨s, .refl, hround⟩
  | some next =>
    have hspec := round_spec hround
    obtain ⟨s', hrest, hlast⟩ := exists_last_round t next
    exact ⟨s', .head hround hrest, hlast⟩
termination_by t.size + 1 - s.steps
decreasing_by omega

/-- The rounds end with the names of the node. -/
theorem Rounds.names_of_last {s : Ascent} (h : t.Rounds (setOut n) s) (hlast : t.round s = none) :
    t.names n = s.names.reverse := by
  rcases t.round_cases s with ⟨_, hahead⟩ | ⟨_, _, _, hsome, _⟩
  · have hnames := h.spec.1
    rw [hahead, List.append_nil] at hnames
    rw [names, hnames]
  · exact absurd (hlast.symm.trans hsome) (by simp)

theorem Rounds.steps_le {s : Ascent} (h : t.Rounds (setOut n) s) :
    s.steps ≤ (t.names n).length := by
  obtain ⟨hnames, hsteps, _⟩ := h.spec
  rw [names, List.length_reverse, ← hnames, List.length_append, hsteps]
  exact Nat.le_add_right ..

/-- In an intact tree there are fewer names above a node than there are nodes. -/
theorem Intact.length_names_lt (ht : t.Intact) (hn : t.get? n.id = some n) :
    (t.names n).length < t.size := by
  have h := intact_iff_rooted.mp ht
  obtain ⟨trail, htrail⟩ := h.exists_trail hn
  rw [h.names_trail htrail, List.length_map]
  exact h.length_trail_lt htrail

/--
**The bound on the walk up is enough and does no harm.**

In any tree, however its links are broken, and from any node: the rounds of the walk come to an end
after at most one more than there are nodes, and what they have collected is the path. If the way
up comes to a node with the mark of the root, or to a node with nothing above it, the path spells
the full names of all nodes on the way, from the top down, without the marked node. If it leads
round in a circle, the path has one name more than there are nodes, and these are the names of the
nodes to which the links lead one after another. It does one of the two. In an intact tree the
steps of the walk from a node of the tree never become as many as there are nodes, so that the
bound is not met.
-/
theorem path_whatever_links (t : Tree) (n : Node) :
    (∃ s, t.Rounds (setOut n) s ∧ t.round s = none ∧ s.steps ≤ t.size + 1 ∧
      t.path n = spell s.names.reverse) ∧
    ((∃ line, t.Line n line) ∨ t.Circles n) ∧
    (∀ line, t.Line n line → t.path n = spell (line.map Node.fullName).reverse) ∧
    (t.Circles n → (t.names n).length = t.size + 1 ∧
      ∀ k ≤ t.size, (t.names n).reverse[k]? = (t.ancestor? k n).map Node.fullName) ∧
    (t.Intact → t.get? n.id = some n → ∀ s, t.Rounds (setOut n) s → s.steps < t.size) := by
  obtain ⟨s, hs, hlast⟩ := exists_last_round t (setOut n)
  refine ⟨⟨s, hs, hlast, hs.spec.2.2, ?_⟩, line_or_circles t n, fun line hline => ?_,
    Circles.names_spec, fun ht hn s hs => ?_⟩
  · rw [path, hs.names_of_last hlast]
  · rw [path, hline.names_eq]
  · exact Nat.lt_of_le_of_lt hs.steps_le (ht.length_names_lt hn)

/-- The links of `1` lead into a circle of `2` and `3`, those of `5` to a node with nothing above
it. -/
def whirl : Tree :=
  ⟨0, 0, Arena.ofList [
    (Node.root 0 .userRead).withChildren [1, 4],
    Node.directory 1 2 "a" .userReadWrite,
    Node.directory 2 3 "b" .userReadWrite,
    Node.directory 3 2 "c" .userReadWrite,
    (Node.directory 4 9 "d" .userReadWrite).withChildren [5],
    Node.file 5 4 "e" (some "txt") "" .userReadWrite]⟩

/-- From `1` the walk takes seven names for six nodes, from `5` the two that there are. In the
standard layout, with its fifty-four nodes, it never makes as many steps. -/
theorem path_whatever_links_of_whirl :
    (∃ n, whirl.get? 1 = some n ∧ whirl.Circles n ∧ (whirl.names n).length = 7 ∧
      whirl.path n = "/c/b/c/b/c/b/a") ∧
    (∃ n d, whirl.get? 5 = some n ∧ whirl.get? 4 = some d ∧ whirl.Line n [n, d] ∧
      whirl.path n = spell ["d", "e.txt"]) ∧
    Layout.tree.Intact ∧
      Layout.tree.get? Layout.tree.currentDirectory.id = some Layout.tree.currentDirectory ∧
      ∀ s, Layout.tree.Rounds (setOut Layout.tree.currentDirectory) s → s.steps < 54 := by
  refine ⟨⟨_, rfl, ?_⟩, ⟨_, _, rfl, rfl, ?_⟩, sound_standard.intact, ?_⟩
  · have hcircles : whirl.Circles (Node.directory 1 2 "a" .userReadWrite) :=
      circles_of_once (by decide : 0 < 2) (rfl : whirl.ancestor? 1 _ = some _) rfl
        (by decide +kernel)
    have hlength := ((path_whatever_links whirl _).2.2.2.1 hcircles).1
    exact ⟨hcircles, hlength, by decide +kernel⟩
  · have hline : whirl.Line (Node.file 5 4 "e" (some "txt") "" .userReadWrite) [_, _] :=
      .link rfl rfl (.last rfl rfl)
    exact ⟨hline, (path_whatever_links whirl _).2.2.1 _ hline⟩
  · have hget := (directory?_eq_some_iff.mp sound_standard.directory?_currentDirectory).1
    exact ⟨hget, (path_whatever_links Layout.tree _).2.2.2.2 sound_standard.intact hget⟩

end TermShell.Tree
