import Mathlib.Data.List.Basic
import TermShell.Node
import TermShell.Path

/-!
# Names

A node is looked up under its full name or its bare one. The full name is not put together for
that: the base name and a dot are taken off the wanted name instead. Here it is shown that this
comes to the same, so that all further reasoning can be about the names themselves.

The name of a file is taken apart at its last dot. Putting it together again gives the name back
(`FileName.join_split`), and since the dot is the last one, no extension contains another.
-/

namespace TermShell

/-- **Taking the base name and the dot off a name compares it with the full one.** -/
theorem FileName.isJoin_iff {base : String} {extension : Option String} {name : String} :
    isJoin base extension name = true ↔ join base extension = name := by
  cases extension with
  | none => simp [isJoin, join]
  | some ext =>
    -- as lists of characters both sides say that `name` is `base`, a dot and `ext`
    rw [← String.toList_inj]
    unfold isJoin
    constructor
    · intro h
      dsimp only at h
      split at h
      · rename_i rest hrest
        rw [← List.isPrefixOf?_eq_some_iff_append_eq.mp hrest, of_decide_eq_true h]
        simp [join]
      · exact absurd h (by simp)
    · intro h
      have hstarts : base.toList.isPrefixOf? name.toList = some ('.' :: ext.toList) :=
        List.isPrefixOf?_eq_some_iff_append_eq.mpr (by rw [← h]; simp [join])
      simp [hstarts]

/-! ## The last dot -/

namespace FileName

/-- A text is cut at the last `x` unless there is none. -/
theorem cutLastChars?_eq_none_iff {x : Char} {s : List Char} :
    Text.cutLastChars? x s = none ↔ x ∉ s := by
  induction s with
  | nil => simp [Text.cutLastChars?]
  | cons c cs ih =>
    rw [Text.cutLastChars?, List.mem_cons, not_or, ← ih]
    cases Text.cutLastChars? x cs with
    | some ba => simp
    | none => simp [eq_comm]

/-- Behind the last `x` there is no other. -/
theorem not_mem_of_cutLastChars? {x : Char} {s before after : List Char}
    (h : Text.cutLastChars? x s = some (before, after)) : x ∉ after := by
  induction s generalizing before with
  | nil => exact absurd h (by simp [Text.cutLastChars?])
  | cons c cs ih =>
    rw [Text.cutLastChars?] at h
    split at h
    · rename_i b a hcs
      obtain ⟨-, rfl⟩ := Prod.mk.inj (Option.some.inj h)
      exact ih hcs
    · -- the `x` at the front is the last one, as there is none behind it
      rename_i hcs
      split at h
      · obtain ⟨-, rfl⟩ := Prod.mk.inj (Option.some.inj h)
        exact cutLastChars?_eq_none_iff.mp hcs
      · exact absurd h (by simp)

/-- **An extension begins behind the last dot.** -/
theorem dot_not_mem_of_split {name extension : String} (h : (split name).2 = some extension) :
    '.' ∉ extension.toList := by
  unfold split at h
  split at h
  · rename_i base ext hcut
    obtain rfl := Option.some.inj h
    rw [String.toList_ofList]
    exact not_mem_of_cutLastChars? hcut
  · exact absurd h (by simp)

/-- **What has a dot has an extension**, be it the empty one. -/
theorem split_extension_eq_none_iff {name : String} :
    (split name).2 = none ↔ '.' ∉ name.toList := by
  rw [← cutLastChars?_eq_none_iff, split]
  cases Text.cutLastChars? '.' name.toList with
  | some ba => simp
  | none => simp

end FileName

/-! ## Nodes -/

namespace Node

/-- The name is the full name of the node or its bare one. -/
def Called (n : Node) (name : String) : Prop := n.fullName = name ∨ n.name = name

theorem hasFullName_iff {n : Node} {name : String} :
    n.hasFullName name = true ↔ n.fullName = name := FileName.isJoin_iff

theorem answersTo_iff {n : Node} {name : String} : n.answersTo name = true ↔ n.Called name := by
  rw [answersTo, Bool.or_eq_true, hasFullName_iff, beq_iff_eq, Called]

theorem fullName_of_isDirectory {n : Node} (h : n.isDirectory = true) : n.fullName = n.name := by
  rcases n with ⟨_, _, _, _, _, _ | _⟩
  · exact absurd h (by simp [isDirectory])
  · rfl

theorem called_iff_of_isDirectory {n : Node} (h : n.isDirectory = true) {name : String} :
    n.Called name ↔ n.name = name := by
  rw [Called, fullName_of_isDirectory h, or_self]

@[simp] theorem fullName_withChildren (n : Node) (cs : List Nat) :
    (n.withChildren cs).fullName = n.fullName := by
  rcases n with ⟨_, _, _, _, _, _ | _⟩ <;> rfl

@[simp] theorem name_withContents (n : Node) (s : String) : (n.withContents s).name = n.name := by
  rcases n with ⟨_, _, _, _, _, _ | _⟩ <;> rfl

@[simp] theorem fullName_withContents (n : Node) (s : String) :
    (n.withContents s).fullName = n.fullName := by
  rcases n with ⟨_, _, _, _, _, _ | _⟩ <;> rfl

end Node

namespace Path

theorem isValidName_iff {name : String} : isValidName name = true ↔
    name ≠ "" ∧ name ≠ "." ∧ name ≠ ".." ∧ separator ∉ name.toList ∧ '\x00' ∉ name.toList := by
  simp [isValidName, and_assoc]

end Path

end TermShell
