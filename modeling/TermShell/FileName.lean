import TermShell.Text.Split

/-!
# File names

The name of a file is a base name and, after the last dot, an extension. A name without
a dot has no extension, which is not the same as the empty extension of a name that ends
in a dot. Putting the two parts together again gives back the name.
-/

namespace TermShell.FileName

/-- The base name and the extension of a file name. -/
def split (name : String) : String × Option String :=
  match Text.cutLastChars? '.' name.toList with
  | some (base, extension) => (String.ofList base, some (String.ofList extension))
  | none => (name, none)

/-- The file name with this base name and extension. -/
def join (base : String) : Option String → String
  | some extension => base ++ "." ++ extension
  | none => base

/-- Is `name` the file name with this base name and extension? Decided by taking the base
name and then the dot off `name`, without putting the parts together. -/
def isJoin (base : String) (extension : Option String) (name : String) : Bool :=
  match extension with
  | some ext =>
    match base.toList.isPrefixOf? name.toList with
    | some ('.' :: rest) => rest = ext.toList
    | _ => false
  | none => base = name

theorem cutLastChars?_eq_some {x : Char} :
    ∀ {s before after : List Char}, Text.cutLastChars? x s = some (before, after) →
      s = before ++ x :: after := by
  intro s
  induction s with
  | nil => intro _ _ h; simp [Text.cutLastChars?] at h
  | cons c cs ih =>
    intro before after h
    unfold Text.cutLastChars? at h
    split at h
    · rename_i b a hcs
      simp only [Option.some.injEq, Prod.mk.injEq] at h
      obtain ⟨rfl, rfl⟩ := h
      rw [ih hcs, List.cons_append]
    · split at h
      · rename_i hc
        simp only [Option.some.injEq, Prod.mk.injEq] at h
        obtain ⟨rfl, rfl⟩ := h
        rw [hc, List.nil_append]
      · simp at h

/-- Nothing is lost in taking a file name apart. -/
theorem join_split (name : String) : join (split name).1 (split name).2 = name := by
  unfold split
  split
  · rename_i base extension h
    apply String.toList_inj.mp
    simp [join, cutLastChars?_eq_some h]
  · rfl

end TermShell.FileName
