import TermShell.Layout
import TermShell.Proofs.Tree.Upkeep

/-!
# Trees in use

A tree is made bare or with the standard layout, and from then on changed by the operations
of `TermShell.Tree.Edit` and by nothing else. `Edit.perform` is one such operation with what it
answers; an operation that refuses or finds nothing to do has to hand back the tree it was
given. `Grown` collects what can become of a tree that way.

The operations accept any numbers, those of missing nodes included, and any node for
insertion. One thing only is asked of the user: a node to be inserted has a number that is
not in use and no children of its own.
-/

namespace TermShell.Tree

/-- An operation on a tree. -/
inductive Edit where
  | insert (parent : Nat) (n : Node)
  | remove (parent id : Nat)
  | setPermissions (id : Nat) (permissions : PermissionSet)
  | write (id : Nat) (contents : String)
  | setCurrent (id : Nat)
  deriving DecidableEq

namespace Edit

/-- A tree after an operation, and the answer: that it was done or that there was nothing to
do, or why it was refused. -/
def perform (t : Tree) : Edit → Tree × Except TreeError Bool
  | .insert parent n =>
    match t.insert parent n with
    | .ok t' => (t', .ok true)
    | .error e => (t, .error e)
  | .remove parent id =>
    match t.remove parent id with
    | .ok (t', found) => (t', .ok found)
    | .error e => (t, .error e)
  | .setPermissions id permissions =>
    match t.setPermissions id permissions with
    | .ok t' => (t', .ok true)
    | .error e => (t, .error e)
  | .write id contents =>
    match t.write id contents with
    | .ok t' => (t', .ok true)
    | .error e => (t, .error e)
  | .setCurrent id =>
    match t.setCurrent id with
    | some t' => (t', .ok true)
    | none => (t, .ok false)

/-- A node to be inserted is new, and comes without children. -/
def Fresh (t : Tree) : Edit → Prop
  | .insert _ n => t.get? n.id = none ∧ n.children = []
  | _ => True

instance (t : Tree) (e : Edit) : Decidable (e.Fresh t) := by
  cases e <;> unfold Fresh <;> infer_instance

end Edit

/-- The trees there are to begin with. -/
inductive Initial : Tree → Prop where
  | bare (permissions : PermissionSet) : Initial (bare permissions)
  | standard : Initial Layout.tree

/-- What can become of a tree by operations, in any number and order. -/
inductive Grown (start : Tree) : Tree → Prop where
  | start : Grown start start
  | edit {t : Tree} (e : Edit) : Grown start t → e.Fresh t → Grown start (e.perform t).1

/-! ## One operation -/

/-- An operation that is refused or has nothing to do leaves the tree as it was. -/
theorem perform_eq_self {t : Tree} {e : Edit} (h : (e.perform t).2 ≠ .ok true) :
    (e.perform t).1 = t := by
  cases e with
  | insert p n =>
    rcases insert_cases t p n with ⟨_, he⟩ | ⟨_, _, _, he⟩ | ⟨_, _, he⟩
    · simp [Edit.perform, he]
    · simp [Edit.perform, he]
    · exact absurd (by simp [Edit.perform, he]) h
  | remove p id =>
    rcases remove_cases t p id with ⟨_, he⟩ | ⟨_, he⟩ | ⟨_, _, _, he⟩ | ⟨_, he⟩ | ⟨_, _, _, _, he⟩
    · simp [Edit.perform, he]
    · simp [Edit.perform, he]
    · simp [Edit.perform, he]
    · simp [Edit.perform, he]
    · exact absurd (by simp [Edit.perform, he]) h
  | setPermissions id permissions =>
    rcases setPermissions_cases t id permissions with ⟨_, he⟩ | ⟨_, _, _, he, _⟩
    · simp [Edit.perform, he]
    · exact absurd (by simp [Edit.perform, he]) h
  | write id contents =>
    rcases write_cases t id contents with ⟨_, he⟩ | ⟨_, _, _, he⟩ | ⟨_, _, _, _, he, _⟩
    · simp [Edit.perform, he]
    · simp [Edit.perform, he]
    · exact absurd (by simp [Edit.perform, he]) h
  | setCurrent id =>
    rcases setCurrent_cases t id with ⟨_, he⟩ | ⟨_, _, he⟩
    · simp [Edit.perform, he]
    · exact absurd (by simp [Edit.perform, he]) h

/-- What an operation can do to a tree, if it is a tree. -/
inductive Edit.Does (t : Tree) : Edit → Tree → Prop where
  | nothing (e : Edit) : Does t e t
  | appended {p : Nat} {n : Node} {t' : Tree} :
      t.Appended p { n with parent := some p, isRoot := false } t' → Does t (.insert p n) t'
  | removed {p id : Nat} {t' : Tree} : t.Removed p id t' → Does t (.remove p id) t'
  | repermitted {n : Node} {permissions : PermissionSet} {t' : Tree} :
      t.Altered n { n with permissions } t' → Does t (.setPermissions n.id permissions) t'
  | written {n : Node} {contents : String} {t' : Tree} : n.isFile = true →
      t.Altered n (n.withContents contents) t' → Does t (.write n.id contents) t'
  | gone {id : Nat} {d : Node} : t.directory? id = some d →
      Does t (.setCurrent id) { t with current := id }

theorem Rooted.does_perform {t : Tree} (ht : t.Rooted) {e : Edit} (hf : e.Fresh t) :
    e.Does t (e.perform t).1 := by
  -- a refusal changes nothing, so that only what has been done is left to look at
  by_cases hdone : (e.perform t).2 = .ok true
  swap
  · rw [perform_eq_self hdone]
    exact .nothing e
  cases e with
  | insert p n =>
    cases hi : t.insert p n with
    | error e => simp [Edit.perform, hi] at hdone
    | ok t' =>
      simp only [Edit.perform, hi]
      exact .appended (appended_of_insert hi hf.1 hf.2)
  | remove p id =>
    cases hr : t.remove p id with
    | error e => simp [Edit.perform, hr] at hdone
    | ok r =>
      obtain ⟨t', found⟩ := r
      obtain rfl : found = true := by simpa [Edit.perform, hr] using hdone
      simp only [Edit.perform, hr]
      exact .removed (ht.removed_of_remove hr)
  | setPermissions id permissions =>
    rcases setPermissions_cases t id permissions with ⟨_, he⟩ | ⟨n, t', hn, he, h⟩
    · simp [Edit.perform, he] at hdone
    · obtain rfl := id_of_get? hn
      simp only [Edit.perform, he]
      exact .repermitted h
  | write id contents =>
    rcases write_cases t id contents with ⟨_, he⟩ | ⟨_, _, _, he⟩ | ⟨n, t', hn, hfile, he, h⟩
    · simp [Edit.perform, he] at hdone
    · simp [Edit.perform, he] at hdone
    · obtain rfl := id_of_get? hn
      simp only [Edit.perform, he]
      exact .written hfile h
  | setCurrent id =>
    rcases setCurrent_cases t id with ⟨_, he⟩ | ⟨d, hd, he⟩
    · simp [Edit.perform, he] at hdone
    · simp only [Edit.perform, he]
      exact .gone hd

theorem Edit.Does.sound {t t' : Tree} {e : Edit} (h : e.Does t t') (ht : t.Sound) :
    t'.Sound ∧ t'.root = t.root := by
  cases h with
  | nothing => exact ⟨ht, rfl⟩
  | appended h => exact ⟨h.sound ht, h.root⟩
  | removed h => exact ⟨h.sound ht, h.root⟩
  | @repermitted n _ _ h => exact ⟨h.sound (n.sameShape_withPermissions _) ht, h.root⟩
  | @written n _ _ _ h => exact ⟨h.sound (n.sameShape_withContents _) ht, h.root⟩
  | gone hd => exact ⟨ht.withCurrent hd, rfl⟩

/-- **One operation keeps a tree sound**, and its root where it is. -/
theorem Sound.perform {t : Tree} (ht : t.Sound) {e : Edit} (hf : e.Fresh t) :
    (e.perform t).1.Sound ∧ (e.perform t).1.root = t.root :=
  (ht.rooted.does_perform hf).sound ht

/-! ## Every history -/

theorem get?_bare (permissions : PermissionSet) (id : Nat) :
    (bare permissions).get? id = if id = 0 then some (Node.root 0 permissions) else none :=
  Arena.get?_put Arena.empty (Node.root 0 permissions) id

/-- A root alone is a tree. -/
theorem rooted_bare (permissions : PermissionSet) : (bare permissions).Rooted := by
  -- the root is the only node, and it lists nothing
  have honly : ∀ id n, (bare permissions).get? id = some n →
      id = 0 ∧ n = Node.root 0 permissions := by
    intro id n hn
    rw [get?_bare] at hn
    split at hn
    · rename_i hid
      exact ⟨hid, (Option.some.inj hn).symm⟩
    · exact absurd hn (by simp)
  refine ⟨⟨_, rfl, rfl, rfl⟩, fun id n hn _ => (honly id n hn).1, fun id n hn hid => ?_,
    fun p c hl => ?_, fun id n hn => ?_, fun id n hn => ?_⟩
  · exact absurd (honly id n hn).1 hid
  · obtain ⟨n, hn, hc⟩ := hl
    rw [(honly p n hn).2] at hc
    exact absurd hc (by simp [Node.root, Node.children])
  · rw [(honly id n hn).2]
    exact List.nodup_nil
  · rw [(honly id n hn).1]
    exact .refl

theorem sound_bare (permissions : PermissionSet) : (bare permissions).Sound where
  intact := intact_iff_rooted.mpr (rooted_bare permissions)
  root := ⟨Node.root 0 permissions, rfl⟩
  current := ⟨Node.root 0 permissions, rfl⟩

theorem sound_standard : Layout.tree.Sound where
  intact := by decide +kernel
  root := Option.isSome_iff_exists.mp (by decide +kernel)
  current := Option.isSome_iff_exists.mp (by decide +kernel)

theorem Initial.sound {start : Tree} (h : Initial start) : start.Sound := by
  cases h with
  | bare permissions => exact sound_bare permissions
  | standard => exact sound_standard

theorem Grown.sound {start t : Tree} (h : Grown start t) (hs : start.Sound) :
    t.Sound ∧ t.root = start.root := by
  induction h with
  | start => exact ⟨hs, rfl⟩
  | edit e _ hf ih =>
    obtain ⟨hsound, hroot⟩ := ih.1.perform hf
    exact ⟨hsound, hroot.trans ih.2⟩

/-- A node refers to the number, as to the directory above it or as to a child. -/
def Mentions (t : Tree) (id : Nat) : Prop :=
  ∃ x n, t.get? x = some n ∧ (n.parent = some id ∨ id ∈ n.children)

/-- A tree refers to nothing that it does not have. -/
theorem Rooted.not_mentions {t : Tree} (h : t.Rooted) {id : Nat} (hid : t.get? id = none) :
    ¬ t.Mentions id := by
  intro hex
  obtain ⟨x, n, hn, hup | hdown⟩ := hex
  · have hx : x ≠ t.root := by
      intro hx
      obtain ⟨r, hr, _, hnone⟩ := h.root
      rw [hx] at hn
      rw [Option.some.inj (hn.symm.trans hr), hnone] at hup
      exact absurd hup (by simp)
    obtain ⟨p, hp, d, hd, _⟩ := h.above x n hn hx
    rw [Option.some.inj (hup.symm.trans hp)] at hid
    exact absurd (hid.symm.trans hd) (by simp)
  · obtain ⟨m, hm, _⟩ := h.below x id ⟨n, hn, hdown⟩
    exact absurd (hid.symm.trans hm) (by simp)

/--
**A tree stays a tree, whatever is done to it.**

After any operations on a bare tree or on the standard layout, the check of the shape finds no
fault, the root is the one there was and a directory, and so is the current directory, which
never has to be replaced by the root. Nothing refers to a node that is gone. And whatever
operation comes next, if it is refused or finds nothing to do, it changes nothing.
-/
theorem whole_after_edits {start t : Tree} (hstart : Initial start) (h : Grown start t) :
    t.Intact ∧ t.root = start.root ∧ (∃ r, t.directory? t.root = some r) ∧
      t.directory? t.current = some t.currentDirectory ∧
      (∀ id, t.get? id = none → ¬ t.Mentions id) ∧
      ∀ e : Edit, (e.perform t).2 ≠ .ok true → (e.perform t).1 = t := by
  obtain ⟨hsound, hroot⟩ := h.sound hstart.sound
  refine ⟨hsound.intact, hroot, hsound.root, hsound.directory?_current, ?_, ?_⟩
  · exact fun id hid => hsound.rooted.not_mentions hid
  · exact fun e he => perform_eq_self he

/-- Four operations, the last of which takes away what holds the current directory. -/
def cutBranch : List Edit := [
  .insert 0 (Node.directory 1 0 "outer" .userReadWrite),
  .insert 1 (Node.directory 2 1 "inner" .userReadWrite),
  .setCurrent 2,
  .remove 0 1]

/-- Not even this leaves the tree without a current directory. -/
theorem whole_after_cut_branch :
    let t := cutBranch.foldl (fun t e => (e.perform t).1) (bare .userRead)
    Initial (bare .userRead) ∧ Grown (bare .userRead) t ∧
      t.Intact ∧ t.root = 0 ∧ (∃ r, t.directory? t.root = some r) ∧
      t.directory? t.current = some t.currentDirectory ∧
      (∀ id, t.get? id = none → ¬ t.Mentions id) ∧
      ∀ e : Edit, (e.perform t).2 ≠ .ok true → (e.perform t).1 = t := by
  have hinit : Initial (bare .userRead) := .bare _
  have hgrown : Grown (bare .userRead)
      (cutBranch.foldl (fun t e => (e.perform t).1) (bare .userRead)) :=
    .edit _ (.edit _ (.edit _ (.edit _ .start (by decide)) (by decide)) trivial) trivial
  exact ⟨hinit, hgrown, whole_after_edits hinit hgrown⟩

end TermShell.Tree
