import TermShell.Proofs.Tree.History

/-!
# Which insertions are safe

An insertion asks for a directory and nothing else. The node may have the number of one that is
there, which is then lost, and it may come with a list of children. Whoever uses the operations
is told to insert only what is new and has no children (`Edit.Fresh`), and this keeps a tree a
tree. Here it is shown that nothing less would do: every other insertion leaves behind a fault
that the check of the shape finds.

If the result is a tree as well, then the place of the number can be pinned down in steps. It is
not the number of the root, for the new node has not the mark of a root; nor that of the
directory which takes the node in, since nothing lies below itself; nor any other, for then two
directories would list it, or one directory twice. And once the number is known to be new, there
is no node that could refer to it from below.
-/

namespace TermShell.Tree

/-- In `t'` the node `n` is the last child of `p`, whatever its number stood for in `t` and
whatever it lists. -/
structure Placed (t : Tree) (p : Nat) (n : Node) (t' : Tree) : Prop where
  root : t'.root = t.root
  new : t'.get? n.id = some { n with parent := some p, isRoot := false }
  into : ∃ d, t.directory? p = some d ∧
    (p ≠ n.id → t'.get? p = some (d.withChildren (d.children ++ [n.id])))
  others : ∀ x, x ≠ n.id → x ≠ p → t'.get? x = t.get? x

variable {t t' : Tree} {p : Nat} {n : Node}

theorem placed_of_insert (h : t.insert p n = .ok t') : t.Placed p n t' := by
  obtain ⟨d, hd, hroot, _, hget⟩ := get?_of_insert h
  refine ⟨hroot, ?_, ⟨d, hd, fun hp => ?_⟩, fun x hx hxp => ?_⟩
  · rw [hget, if_pos rfl]
  · rw [hget, if_neg hp, if_pos rfl]
  · rw [hget, if_neg hx, if_neg hxp]

namespace Placed

/-- The root cannot be replaced, because what is inserted loses the mark of a root. -/
theorem ne_root (h : t.Placed p n t') (ht' : t'.Rooted) : n.id ≠ t.root := by
  intro he
  obtain ⟨r, hr, hmark, _⟩ := ht'.root
  rw [h.root, ← he, h.new] at hr
  rw [← Option.some.inj hr] at hmark
  exact absurd hmark (by simp)

/-- A directory cannot take itself in. -/
theorem ne_parent (h : t.Placed p n t') (ht' : t'.Rooted) : p ≠ n.id := by
  intro he
  have hroot : n.id ≠ t'.root := h.root ▸ h.ne_root ht'
  obtain ⟨q, hq, hl⟩ := ht'.above _ _ h.new hroot
  obtain rfl := Option.some.inj hq
  rw [← he] at hl
  exact ht'.not_leads_up hl .refl

theorem lists (h : t.Placed p n t') (hp : p ≠ n.id) : t'.arena.Lists p n.id := by
  obtain ⟨d, hd, hinto⟩ := h.into
  refine ⟨_, hinto hp, ?_⟩
  rw [Node.children_withChildren _ (directory?_eq_some_iff.mp hd).2]
  exact List.mem_append_right _ (List.mem_singleton_self _)

/-- A node that is there cannot be replaced, because it is listed where it was. -/
theorem fresh (h : t.Placed p n t') (ht : t.Rooted) (ht' : t'.Rooted) : t.get? n.id = none := by
  have hp := h.ne_parent ht'
  cases hm : t.get? n.id with
  | none => rfl
  | some m =>
    exfalso
    obtain ⟨q, _, hl⟩ := ht.above _ _ hm (h.ne_root ht')
    have hqn : q ≠ n.id := by
      intro he
      rw [he] at hl
      exact ht.not_leads_up hl .refl
    by_cases hqp : q = p
    · -- the directory would list the number twice
      subst hqp
      obtain ⟨d, hd, hinto⟩ := h.into
      obtain ⟨hget, hdir⟩ := directory?_eq_some_iff.mp hd
      obtain ⟨k, hk, hmem⟩ := hl
      rw [Option.some.inj (hk.symm.trans hget)] at hmem
      have hnodup := ht'.nodup q _ (hinto hp)
      rw [Node.children_withChildren _ hdir] at hnodup
      exact (List.nodup_append.mp hnodup).2.2 n.id hmem n.id (List.mem_singleton_self _) rfl
    · -- two directories would list it
      have hl' : t'.arena.Lists q n.id := by
        obtain ⟨k, hk, hmem⟩ := hl
        exact ⟨k, (h.others q hqn hqp).trans hk, hmem⟩
      exact hqp (ht'.lister_unique hl' (h.lists hp))

/-- What is inserted cannot come with children, because they have another directory above
them. -/
theorem childless (h : t.Placed p n t') (ht : t.Rooted) (ht' : t'.Rooted) : n.children = [] := by
  have hp := h.ne_parent ht'
  have hmentions := ht.not_mentions (h.fresh ht ht')
  refine List.eq_nil_iff_forall_not_mem.mpr fun c hc => ?_
  obtain ⟨m, hm, hup⟩ := ht'.below n.id c ⟨_, h.new, hc⟩
  by_cases hcn : c = n.id
  · rw [hcn, h.new] at hm
    rw [← Option.some.inj hm] at hup
    exact hp (Option.some.inj hup)
  by_cases hcp : c = p
  · obtain ⟨d, hd, hinto⟩ := h.into
    rw [hcp, hinto hp] at hm
    rw [← Option.some.inj hm, Node.parent_withChildren] at hup
    exact hmentions ⟨p, d, (directory?_eq_some_iff.mp hd).1, .inl hup⟩
  · rw [h.others c hcn hcp] at hm
    exact hmentions ⟨c, m, hm, .inl hup⟩

end Placed

/--
**An insertion leaves a tree behind exactly if the node is new and has no children.**

Into a directory of an intact tree any node can be inserted; and the result is intact if and only
if the number of the node was not in use and its list of children is empty. Where there is
nothing, or a file, no node can be inserted, and the tree stays as it was.
-/
theorem insert_keeps_intact_iff (ht : t.Intact) (p : Nat) (n : Node) :
    (∀ d, t.directory? p = some d → ∃ t', t.insert p n = .ok t' ∧
      (t'.Intact ↔ t.get? n.id = none ∧ n.children = [])) ∧
    (t.get? p = none → (Edit.insert p n).perform t = (t, .error (.notFound p))) ∧
    (∀ f, t.get? p = some f → f.isFile = true →
      (Edit.insert p n).perform t = (t, .error (.notADirectory p))) := by
  have h := intact_iff_rooted.mp ht
  rcases insert_cases t p n with ⟨hnone, he⟩ | ⟨f, hf, hfile, he⟩ | ⟨d, hd, he⟩
  · have hperform : (Edit.insert p n).perform t = (t, .error (.notFound p)) := by
      simp [Edit.perform, he]
    refine ⟨fun d hd => ?_, fun _ => hperform, fun f hf => ?_⟩
    · exact absurd (hnone.symm.trans (directory?_eq_some_iff.mp hd).1) (by simp)
    · exact absurd (hnone.symm.trans hf) (by simp)
  · have hperform : (Edit.insert p n).perform t = (t, .error (.notADirectory p)) := by
      simp [Edit.perform, he]
    refine ⟨fun d hd => ?_, fun hnone => ?_, fun _ _ _ => hperform⟩
    · obtain ⟨hget, hdir⟩ := directory?_eq_some_iff.mp hd
      rw [Option.some.inj (hf.symm.trans hget), hdir] at hfile
      exact absurd hfile (by simp)
    · exact absurd (hnone.symm.trans hf) (by simp)
  · obtain ⟨hget, hdir⟩ := directory?_eq_some_iff.mp hd
    refine ⟨fun _ _ => ⟨_, he, ?_⟩, fun hnone => ?_, fun f hf hfile => ?_⟩
    · constructor
      · intro ht'
        have hplaced := placed_of_insert he
        have h' := intact_iff_rooted.mp ht'
        exact ⟨hplaced.fresh h h', hplaced.childless h h'⟩
      · rintro ⟨hfresh, hnil⟩
        exact intact_iff_rooted.mpr ((appended_of_insert he hfresh hnil).rooted h)
    · exact absurd (hnone.symm.trans hget) (by simp)
    · rw [Option.some.inj (hf.symm.trans hget), Node.isFile, hdir] at hfile
      exact absurd hfile (by simp)

/-- A new file can be inserted into the home directory of the standard layout. With the number of
the root, of the directory above, of the home directory itself or of a directory elsewhere, the
file leaves no tree behind, and neither does a new directory that lists one that is there. -/
theorem insert_keeps_intact_iff_at_home :
    let note (id : Nat) : Node := Node.file id 0 "note" none "" .userReadWrite
    (∃ t', Layout.tree.insert 48 (note 54) = .ok t' ∧ t'.Intact) ∧
    (∀ id ∈ [0, 45, 48, 1], ∃ t', Layout.tree.insert 48 (note id) = .ok t' ∧ ¬ t'.Intact) ∧
    ∃ t', Layout.tree.insert 48 ((Node.directory 54 0 "box" .userReadWrite).withChildren [1]) =
      .ok t' ∧ ¬ t'.Intact := by
  have hhome : Layout.tree.directory? 48 = some Layout.tree.currentDirectory := by decide +kernel
  have hinsert := fun n => (insert_keeps_intact_iff sound_standard.intact 48 n).1 _ hhome
  refine ⟨?_, fun id hid => ?_, ?_⟩
  · obtain ⟨t', he, hiff⟩ := hinsert (Node.file 54 0 "note" none "" .userReadWrite)
    exact ⟨t', he, hiff.mpr (by decide +kernel)⟩
  · obtain ⟨t', he, hiff⟩ := hinsert (Node.file id 0 "note" none "" .userReadWrite)
    have hused : ∀ id ∈ [0, 45, 48, 1], Layout.tree.get? id ≠ none := by decide +kernel
    exact ⟨t', he, fun ht' => hused id hid (hiff.mp ht').1⟩
  · obtain ⟨t', he, hiff⟩ := hinsert
      ((Node.directory 54 0 "box" .userReadWrite).withChildren [1])
    exact ⟨t', he, fun ht' => absurd (hiff.mp ht').2 (by decide)⟩

end TermShell.Tree
