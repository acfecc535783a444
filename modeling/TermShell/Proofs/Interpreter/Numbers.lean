import TermShell.Proofs.Interpreter.Usage

/-!
# Numbers are not used twice

The supply of numbers only grows, and a new node takes the next number from it. So what a number
stands for can change in its text, its permissions and its children, but it is never another node:
one that is there under a number has the name and the place of the one that was (`node_cases`).
-/

namespace TermShell

open Calendar (Instant)

@[simp] theorem Node.text_withChildren (n : Node) (cs : List Nat) :
    (n.withChildren cs).text = n.text := by
  rcases n with ⟨_, _, _, _, _, _ | _⟩ <;> rfl

/-- The nodes have the same name, are in the same place and are both files or both directories. -/
structure Node.SamePlace (n n' : Node) : Prop where
  name : n'.name = n.name
  parent : n'.parent = n.parent
  isDirectory : n'.isDirectory = n.isDirectory

theorem Node.SamePlace.refl (n : Node) : n.SamePlace n := ⟨rfl, rfl, rfl⟩

theorem Node.SamePlace.trans {n n' n'' : Node} (h : n.SamePlace n') (h' : n'.SamePlace n'') :
    n.SamePlace n'' :=
  ⟨h'.name.trans h.name, h'.parent.trans h.parent, h'.isDirectory.trans h.isDirectory⟩

theorem Node.samePlace_withChildren (n : Node) (cs : List Nat) : n.SamePlace (n.withChildren cs) :=
  ⟨n.name_withChildren cs, n.parent_withChildren cs, n.isDirectory_withChildren cs⟩

theorem Node.samePlace_withContents (n : Node) (s : String) : n.SamePlace (n.withContents s) :=
  ⟨n.name_withContents s, n.parent_withContents s, n.isDirectory_withContents s⟩

/-! ## The supply of a volume -/

namespace Volume

variable {v v' : Volume}

theorem next_le_withTree (v : Volume) (t : Tree) : v.next ≤ (v.withTree t).next :=
  Nat.le_max_left _ _

theorem next_le_of_adopt {r : Except TreeError Tree} (h : v.adopt r = .ok v') :
    v.next ≤ v'.next := by
  cases r with
  | ok t =>
    obtain rfl := Except.ok.inj h
    exact v.next_le_withTree t
  | error e => exact absurd h (by simp [adopt])

theorem next_le_setCurrent (v : Volume) (id : Nat) : v.next ≤ (v.setCurrent id).next := by
  unfold setCurrent
  split
  · exact v.next_le_withTree _
  · exact Nat.le_refl _

/-- **No action gives a number back.** -/
theorem Action.next_le_perform (v : Volume) (a : Action) : v.next ≤ (a.perform v).next := by
  -- an action that is refused leaves the supply alone
  have hokay : ∀ {r : Except VolumeError Volume}, (∀ v', r = .ok v' → v.next ≤ v'.next) →
      v.next ≤ (r.toOption.getD v).next := by
    intro r hr
    cases r with
    | ok v' => exact hr v' rfl
    | error e => exact Nat.le_refl _
  refine hokay fun v' h => ?_
  cases a with
  | setCurrent id =>
    obtain rfl := Except.ok.inj h
    exact v.next_le_setCurrent id
  | setCurrentPath path =>
    obtain rfl := Except.ok.inj h
    rcases v.setCurrentPath_cases path with hstay | ⟨d, hgo⟩
    · rw [hstay]
    · rw [hgo]
      exact v.next_le_setCurrent d.id
  | createFile name =>
    simp only [attempt, Volume.createFile] at h
    split at h
    · exact absurd h (by simp)
    · exact next_le_of_adopt h
  | createDirectory name =>
    simp only [attempt, Volume.createDirectory] at h
    split at h
    · exact absurd h (by simp)
    · exact next_le_of_adopt h
  | delete id =>
    simp only [attempt, Volume.delete] at h
    split at h
    · obtain rfl := Except.ok.inj h
      exact v.next_le_withTree _
    · exact absurd h (by simp [Except.map])
  | write id contents => exact next_le_of_adopt h
  | setPermissions id permissions => exact next_le_of_adopt h

end Volume

/-! ## Lines -/

namespace Interpreter

variable {v : Volume} {l : CommandLine}

/-- **A deed makes something or leaves names and texts alone.** A node is what has been made under
the first argument, or it was there before in the same place, with the same full name and text. -/
theorem Deed.node_cases {c : Command} {t' : Tree} {o : Outcome} (h : Deed v l c t' o) {id : Nat}
    {n' : Node} (hn : t'.get? id = some n') :
    v.Makes l.first n' ∨
      ∃ n, v.tree.get? id = some n ∧ n.SamePlace n' ∧ n'.fullName = n.fullName ∧
        n'.text = n.text := by
  have happended : ∀ {n : Node}, v.Makes l.first n → v.tree.Appended v.tree.current n t' →
      v.Makes l.first n' ∨
        ∃ n, v.tree.get? id = some n ∧ n.SamePlace n' ∧ n'.fullName = n.fullName ∧
          n'.text = n.text := by
    intro n hmakes happ
    rcases happ.get?_cases hn with ⟨_, rfl⟩ | ⟨m, cs, hold, rfl, _⟩
    · exact .inl hmakes
    · exact .inr ⟨m, hold, m.samePlace_withChildren cs, m.fullName_withChildren cs,
        m.text_withChildren cs⟩
  have hremoved : ∀ {x : Nat}, v.tree.Removed v.tree.current x t' →
      ∃ n, v.tree.get? id = some n ∧ n.SamePlace n' ∧ n'.fullName = n.fullName ∧
        n'.text = n.text := by
    intro x hrem
    obtain ⟨_, m, cs, hold, rfl, _⟩ := hrem.get?_cases hn
    exact ⟨m, hold, m.samePlace_withChildren cs, m.fullName_withChildren cs,
      m.text_withChildren cs⟩
  cases h with
  | went => exact .inr ⟨n', hn, .refl n', rfl, rfl⟩
  | madeFile _ _ _ hmakes _ happ => exact happended hmakes happ
  | madeDirectory _ _ _ hmakes _ happ => exact happended hmakes happ
  | repermitted n _ _ _ _ _ _ halt =>
    rcases halt.get?_cases hn with ⟨rfl, rfl⟩ | ⟨_, hold⟩
    · exact .inr ⟨n, halt.before, ⟨rfl, rfl, rfl⟩, rfl, rfl⟩
    · exact .inr ⟨n', hold, .refl n', rfl, rfl⟩
  | deletedFile _ _ _ _ hrem => exact .inr (hremoved hrem)
  | deletedDirectory _ _ _ _ hrem => exact .inr (hremoved hrem)

/-- **The supply of numbers only grows.** -/
theorem next_le_execute (now : Instant) (v : Volume) (line : String) :
    v.next ≤ (execute now v line).1.next := by
  rcases acts_execute now v line with hsame | ⟨a, ha⟩
  · rw [hsame]
  · rw [ha]
    exact a.next_le_perform v

end Interpreter

end TermShell
