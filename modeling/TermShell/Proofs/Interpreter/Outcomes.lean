import TermShell.Proofs.Interpreter.Deeds
import TermShell.Proofs.Rgb
import TermShell.Proofs.Tree.Moves

/-!
# What a line hands over to the host

The host takes an outcome at its word: a file to be edited has to be there and has to be one,
and a colour has to be written as one. `Sound` trees and the handlers see to that. Of what a
line does to the tree the host need not know more than that it is one of the moves of a user.

Whatever the tree is like, a line that does something to it ends with a message or in silence
(`execute_complete_or_unchanged`). So the host is never asked for anything on top of a change.
-/

namespace TermShell

/-- The outcome asks for nothing but perhaps a text to be shown. -/
inductive Outcome.Complete : Outcome → Prop where
  | message (text : String) : Complete (.message text)
  | silent : Complete .silent

theorem Outcome.Complete.ne_save {o : Outcome} (h : o.Complete) : o ≠ .save := by
  cases h <;> simp

namespace Interpreter

open Calendar (Instant)

variable {v : Volume} {l : CommandLine}

/-- Leave to write in the current directory is what an open tree gives. -/
theorem open_of_allows (hv : v.tree.Sound) (h : v.allows ⟨.user, .write⟩ = true) : v.tree.Open :=
  ⟨_, hv.directory?_current, h⟩

/-- A deed is a move of the user. -/
theorem Deed.move {c : Command} {t' : Tree} {o : Outcome} (hv : v.tree.Sound)
    (h : Deed v l c t' o) : v.tree.Move t' := by
  cases h with
  | went d _ hd _ => exact .go hd
  | madeFile n _ hallows _ _ happ => exact .append (open_of_allows hv hallows) happ
  | madeDirectory n _ hallows _ _ happ => exact .append (open_of_allows hv hallows) happ
  | repermitted n _ _ hallows _ hl _ halt => exact .repermit (open_of_allows hv hallows) hl halt
  | deletedFile n _ hallows _ hrem => exact .remove (open_of_allows hv hallows) hrem
  | deletedDirectory n _ hallows _ hrem => exact .remove (open_of_allows hv hallows) hrem

/-- A deed asks for nothing more. -/
theorem Deed.feasible {c : Command} {t' : Tree} {o : Outcome} (w : Volume)
    (h : Deed v l c t' o) : Feasible w o := by
  cases h <;> trivial

/-- **Whatever the line, what it does to the tree is a move of the user.** -/
theorem move_execute (now : Instant) (hv : v.tree.Sound) (line : String) :
    v.tree.Move (execute now v line).1.tree := by
  rcases execute_cases now hv line with ⟨hsame, _⟩ | ⟨l, c, hdeed⟩
  · rw [hsame]
    exact .stay
  · exact hdeed.move hv

/-- **What a line asks of the host can be done**, on the volume after it. -/
theorem feasible_execute (now : Instant) (hv : v.tree.Sound) (line : String) :
    Feasible (execute now v line).1 (execute now v line).2 := by
  rcases execute_cases now hv line with ⟨hsame, hfeasible⟩ | ⟨l, c, hdeed⟩
  · rwa [hsame]
  · exact hdeed.feasible _

/-! ## Lines that change something -/

section Complete

variable (v l)

theorem complete_made (name : String) (r : Except VolumeError Volume) :
    (made v name r).2.Complete := by
  cases r with
  | ok v' => exact .silent
  | error e => cases e <;> exact .message _

theorem complete_deleteChild (name : String) (id : Nat) : (deleteChild v name id).2.Complete := by
  unfold deleteChild
  split <;> exact .message _

theorem complete_changeDirectory : (changeDirectory v l).2.Complete := by
  unfold changeDirectory
  split
  · exact .message _
  · split
    · exact .silent
    · exact .message _

theorem complete_changePermissions : (changePermissions v l).2.Complete := by
  unfold changePermissions
  split
  · split
    · exact .message _
    · split
      · exact .message _
      · split <;> exact .message _
  · exact .message _

theorem complete_makeFile : (makeFile v l).2.Complete := by
  unfold makeFile
  split
  · exact complete_made ..
  · exact .message _

theorem complete_makeDirectory : (makeDirectory v l).2.Complete := by
  unfold makeDirectory
  split
  · exact complete_made ..
  · exact .message _

theorem complete_deleteFile : (deleteFile v l).2.Complete := by
  unfold deleteFile
  split
  · split
    · exact complete_deleteChild ..
    · exact .message _
    · exact .message _
  · exact .message _

theorem complete_deleteDirectory : (deleteDirectory v l).2.Complete := by
  unfold deleteDirectory
  split
  · split
    · split
      · exact complete_deleteChild ..
      · exact .message _
    · exact .message _
    · exact .message _
  · exact .message _

theorem perform_complete_or_unchanged (now : Instant) (c : Command) :
    (perform now v c l).2.Complete ∨ (perform now v c l).1 = v := by
  cases c with
  | changeDirectory => exact .inl (complete_changeDirectory v l)
  | changePermissions => exact .inl (complete_changePermissions v l)
  | makeFile => exact .inl (complete_makeFile v l)
  | makeDirectory => exact .inl (complete_makeDirectory v l)
  | deleteFile => exact .inl (complete_deleteFile v l)
  | deleteDirectory => exact .inl (complete_deleteDirectory v l)
  | _ => exact .inr rfl

/-- **A line that asks for something has changed nothing**, on any tree. -/
theorem execute_complete_or_unchanged (now : Instant) (line : String) :
    (execute now v line).2.Complete ∨ (execute now v line).1 = v := by
  unfold execute
  split
  · exact .inr rfl
  · unfold run
    split
    · exact .inr rfl
    · split
      · exact .inr rfl
      · exact perform_complete_or_unchanged v _ now _

end Complete

end Interpreter

end TermShell
