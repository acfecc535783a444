import TermShell.Proofs.Interpreter.Deeds
import TermShell.Proofs.Volume.Usage

/-!
# Lines as uses of a volume

Each handler leaves the volume as it is or does to it one of the things that can be done on a
volume. So what becomes of a volume by lines, whatever they are and at whatever times they are
typed, is one of the things that become of it by use (`Typed.used`). In particular all names stay
valid, which the changes of the tree alone do not tell: it is the volume that looks at them.
-/

namespace TermShell.Interpreter

open Calendar (Instant)

/-- What can become of a volume by lines, in any number and at any times. -/
inductive Typed (start : Volume) : Volume → Prop where
  | start : Typed start start
  | line {v : Volume} (now : Instant) (line : String) :
      Typed start v → Typed start (execute now v line).1

/-- The volume is as it was, or one thing has been done on it. -/
def Acts (v v' : Volume) : Prop := v' = v ∨ ∃ a : Volume.Action, v' = a.perform v

variable {v v' : Volume}

/-! ## Handlers -/

theorem fst_made (v : Volume) (name : String) (r : Except VolumeError Volume) :
    (made v name r).1 = r.toOption.getD v := by
  cases r <;> rfl

theorem acts_changeDirectory (v : Volume) (l : CommandLine) : Acts v (changeDirectory v l).1 := by
  unfold changeDirectory
  split
  · exact .inl rfl
  · rename_i d _
    split
    · exact .inr ⟨.setCurrent d.id, rfl⟩
    · exact .inl rfl

theorem acts_makeFile (v : Volume) (l : CommandLine) : Acts v (makeFile v l).1 := by
  unfold makeFile
  split
  · exact .inr ⟨.createFile l.first, fst_made ..⟩
  · exact .inl rfl

theorem acts_makeDirectory (v : Volume) (l : CommandLine) : Acts v (makeDirectory v l).1 := by
  unfold makeDirectory
  split
  · exact .inr ⟨.createDirectory l.first, fst_made ..⟩
  · exact .inl rfl

theorem acts_changePermissions (v : Volume) (l : CommandLine) :
    Acts v (changePermissions v l).1 := by
  unfold changePermissions
  split
  swap
  · exact .inl rfl
  split
  · exact .inl rfl
  · rename_i n _
    split
    · exact .inl rfl
    · rename_i permissions _
      refine .inr ⟨.setPermissions n.id permissions, ?_⟩
      simp only [Volume.Action.perform, Volume.Action.attempt]
      cases v.setPermissions n.id permissions <;> rfl

theorem acts_deleteChild (v : Volume) (name : String) (id : Nat) :
    Acts v (deleteChild v name id).1 := by
  refine .inr ⟨.delete id, ?_⟩
  simp only [deleteChild, Volume.Action.perform, Volume.Action.attempt]
  cases v.delete id <;> rfl

theorem acts_deleteFile (v : Volume) (l : CommandLine) : Acts v (deleteFile v l).1 := by
  unfold deleteFile
  split
  · split
    · exact acts_deleteChild ..
    · exact .inl rfl
    · exact .inl rfl
  · exact .inl rfl

theorem acts_deleteDirectory (v : Volume) (l : CommandLine) : Acts v (deleteDirectory v l).1 := by
  unfold deleteDirectory
  split
  · split
    · split
      · exact acts_deleteChild ..
      · exact .inl rfl
    · exact .inl rfl
    · exact .inl rfl
  · exact .inl rfl

/-! ## Lines -/

theorem acts_perform (now : Instant) (v : Volume) (c : Command) (l : CommandLine) :
    Acts v (perform now v c l).1 := by
  cases c with
  | changeDirectory => exact acts_changeDirectory v l
  | makeFile => exact acts_makeFile v l
  | makeDirectory => exact acts_makeDirectory v l
  | changePermissions => exact acts_changePermissions v l
  | deleteFile => exact acts_deleteFile v l
  | deleteDirectory => exact acts_deleteDirectory v l
  | _ => exact .inl rfl

/-- **A line does at most one thing on the volume.** -/
theorem acts_execute (now : Instant) (v : Volume) (line : String) :
    Acts v (execute now v line).1 := by
  by_cases h : ∃ l c, Names line l c
  · obtain ⟨l, c, hl⟩ := h
    rw [hl.execute_eq, run, hl.2]
    dsimp only
    split
    · exact .inl rfl
    · exact acts_perform now v c l
  · exact .inl (execute_of_not_names now v h).1

theorem used_execute {start : Volume} (h : Volume.Used start v) (now : Instant) (line : String) :
    Volume.Used start (execute now v line).1 := by
  rcases acts_execute now v line with hsame | ⟨a, ha⟩
  · rwa [hsame]
  · rw [ha]
    exact .act a h

/-- **Lines are a way to use a volume.** -/
theorem Typed.used {start : Volume} (h : Typed start v) : Volume.Used start v := by
  induction h with
  | start => exact .start
  | line now line _ ih => exact used_execute ih now line

end TermShell.Interpreter
