import TermShell.Proofs.Tree.Upkeep

/-!
# What a user can do to a tree

Whatever a user types, the tree changes in one of five ways, and `Move` lists them with the
permission that each of them takes: four are confined to a current directory in which the user
may write, and the fifth, writing to a file, to a file that the user may write.

What no move destroys holds for as long as the shell is used, so that a statement about all
sessions comes down to five cases.
-/

namespace TermShell.Tree

/-- The current directory is one in which the user may write. -/
def Open (t : Tree) : Prop :=
  ∃ d, t.directory? t.current = some d ∧ d.permissions.userWrites = true

/-- What one line can make of a tree. -/
inductive Move (t : Tree) : Tree → Prop where
  | stay : Move t t
  | go {d : Node} : t.directory? d.id = some d → Move t { t with current := d.id }
  | append {n : Node} {t' : Tree} : t.Open → t.Appended t.current n t' → Move t t'
  | repermit {n : Node} {permissions : PermissionSet} {t' : Tree} : t.Open →
      t.arena.Lists t.current n.id → t.Altered n { n with permissions } t' → Move t t'
  | remove {id : Nat} {t' : Tree} : t.Open → t.Removed t.current id t' → Move t t'
  | write {n : Node} {contents : String} {t' : Tree} : n.isFile = true →
      n.permissions.userWrites = true → t.Altered n (n.withContents contents) t' → Move t t'

/-- What any number of lines can make of a tree. -/
def Moves : Tree → Tree → Prop := Relation.ReflTransGen Move

variable {t t' t'' : Tree}

theorem Moves.refl (t : Tree) : Moves t t := Relation.ReflTransGen.refl

theorem Moves.trans (h : Moves t t') (h' : Moves t' t'') : Moves t t'' :=
  Relation.ReflTransGen.trans h h'

theorem Move.moves (h : Move t t') : Moves t t' := Relation.ReflTransGen.single h

/-- **A move keeps a tree sound**, and its root where it is. -/
theorem Move.sound (h : Move t t') (ht : t.Sound) : t'.Sound ∧ t'.root = t.root := by
  cases h with
  | stay => exact ⟨ht, rfl⟩
  | go hd => exact ⟨ht.withCurrent hd, rfl⟩
  | append _ h => exact ⟨h.sound ht, h.root⟩
  | @repermit n _ _ _ _ h => exact ⟨h.sound (n.sameShape_withPermissions _) ht, h.root⟩
  | remove _ h => exact ⟨h.sound ht, h.root⟩
  | @write n _ _ _ _ h => exact ⟨h.sound (n.sameShape_withContents _) ht, h.root⟩

theorem Moves.sound (h : Moves t t') (ht : t.Sound) : t'.Sound ∧ t'.root = t.root := by
  induction h with
  | refl => exact ⟨ht, rfl⟩
  | tail _ hmove ih =>
    obtain ⟨hsound, hroot⟩ := hmove.sound ih.1
    exact ⟨hsound, hroot.trans ih.2⟩

end TermShell.Tree
