import Mathlib.Data.List.DropRight
import Mathlib.Data.List.Infix
import Mathlib.Data.List.TakeWhile
import TermShell.Text.Lines

/-!
# Trimmed texts

What trimming leaves is a piece of the text, and a text without blanks at its ends is left as it
is. A carriage return is a blank, so it does not matter to a trimmed line how many of them were
taken off its end before. All of this is about dropping from the end of a list, which the library
knows as `List.rdropWhile`.
-/

namespace TermShell.Text

theorem dropEndWhile_eq_rdropWhile {α : Type} (p : α → Bool) (s : List α) :
    dropEndWhile p s = s.rdropWhile p := rfl

/-- Dropping less before makes no difference. -/
theorem dropEndWhile_dropEndWhile {α : Type} {p q : α → Bool} (h : ∀ a, q a = true → p a = true)
    (s : List α) : dropEndWhile p (dropEndWhile q s) = dropEndWhile p s := by
  simp only [dropEndWhile_eq_rdropWhile]
  induction s using List.reverseRecOn with
  | nil => rfl
  | append_singleton s a ih =>
    by_cases ha : q a = true
    · rw [List.rdropWhile_concat_pos q s a ha, List.rdropWhile_concat_pos p s a (h a ha), ih]
    · rw [List.rdropWhile_concat_neg q s a ha]

theorem trimEndChars_trimEndChars (s : List Char) :
    trimEndChars (trimEndChars s) = trimEndChars s :=
  dropEndWhile_dropEndWhile (fun _ h => h) s

theorem trimEnd_ofList (s : List Char) :
    trimEnd (String.ofList s) = String.ofList (trimEndChars s) := by
  rw [trimEnd, String.toList_ofList]

theorem trimEnd_trimEnd (s : String) : trimEnd (trimEnd s) = trimEnd s :=
  (trimEnd_ofList _).trans (congrArg String.ofList (trimEndChars_trimEndChars s.toList))

theorem mem_of_mem_trimEnd {s : String} {c : Char} (h : c ∈ (trimEnd s).toList) : c ∈ s.toList := by
  rw [trimEnd, String.toList_ofList] at h
  have hfront := List.rdropWhile_prefix isBlank s.toList
  exact hfront.subset h

theorem isBlank_of_beq_return (c : Char) (h : (c == '\r') = true) : isBlank c = true := by
  rw [beq_iff_eq.mp h]
  decide

/-- Carriage returns at the end of a line are trimmed anyway. -/
theorem trimEndChars_dropReturns (s : List Char) :
    trimEndChars (dropEndWhile (· == '\r') s) = trimEndChars s :=
  dropEndWhile_dropEndWhile isBlank_of_beq_return s

theorem trimEndChars_dropReturn (s : List Char) : trimEndChars (dropReturn s) = trimEndChars s := by
  unfold dropReturn
  split
  · rename_i hlast
    obtain ⟨front, rfl⟩ := List.getLast?_eq_some_iff.mp hlast
    rw [List.dropLast_concat]
    exact (List.rdropWhile_concat_pos isBlank front '\r' (by decide)).symm
  · rfl

theorem trimChars_infix (s : List Char) : trimChars s <:+: s := by
  have hfront : trimChars s <+: trimStartChars s := List.rdropWhile_prefix isBlank _
  exact hfront.isInfix.trans (List.dropWhile_suffix isBlank).isInfix

/-- A text that begins and ends with something else than a blank is trimmed already. -/
theorem trimChars_eq_self {first last : Char} {s : List Char} (hfirst : isBlank first = false)
    (hlast : isBlank last = false) :
    trimChars (first :: (s ++ [last])) = first :: (s ++ [last]) := by
  have hstart : trimStartChars (first :: (s ++ [last])) = first :: s ++ [last] :=
    List.dropWhile_cons_of_neg (by simp [hfirst])
  rw [trimChars, hstart]
  exact List.rdropWhile_concat_neg isBlank (first :: s) last (by simp [hlast])

/-- What has been trimmed are blanks on either side. -/
theorem exists_around_trimChars (s : List Char) : ∃ front back,
    s = front ++ trimChars s ++ back ∧ (∀ c ∈ front, isBlank c = true) ∧
      ∀ c ∈ back, isBlank c = true := by
  refine ⟨s.takeWhile isBlank, (trimStartChars s).rtakeWhile isBlank, ?_, ?_, ?_⟩
  · have hback : trimChars s ++ (trimStartChars s).rtakeWhile isBlank = trimStartChars s :=
      List.rdropWhile_append_rtakeWhile
    rw [List.append_assoc, hback]
    exact List.takeWhile_append_dropWhile.symm
  · exact fun c hc => List.mem_takeWhile_imp hc
  · exact fun c hc => List.mem_rtakeWhile_imp hc

/-- Without blanks there is nothing to trim. -/
theorem exists_isBlank_of_trim_ne {s : String} (h : trim s ≠ s) :
    ∃ c ∈ s.toList, isBlank c = true := by
  obtain ⟨front, back, hs, hfront, hback⟩ := exists_around_trimChars s.toList
  by_contra hno
  have hempty : ∀ part : List Char, (∀ c ∈ part, isBlank c = true) → (∀ c ∈ part, c ∈ s.toList) →
      part = [] := by
    intro part hpart hsub
    refine List.eq_nil_iff_forall_not_mem.mpr fun c hc => ?_
    exact hno ⟨c, hsub c hc, hpart c hc⟩
  obtain rfl := hempty front hfront fun c hc => by rw [hs]; simp [hc]
  obtain rfl := hempty back hback fun c hc => by rw [hs]; simp [hc]
  rw [List.nil_append, List.append_nil] at hs
  exact h (by rw [trim, ← hs, String.ofList_toList])

/-- Nothing is left of a text if it is blank all over. -/
theorem trim_eq_empty_iff {s : String} : trim s = "" ↔ ∀ c ∈ s.toList, isBlank c = true := by
  rw [← String.toList_inj, trim, String.toList_ofList, String.toList_empty]
  constructor
  · intro hnil c hc
    obtain ⟨front, back, hs, hfront, hback⟩ := exists_around_trimChars s.toList
    rw [hs, hnil, List.append_nil] at hc
    exact (List.mem_append.mp hc).elim (hfront c) (hback c)
  · intro hall
    rw [trimChars, trimStartChars, List.dropWhile_eq_nil_iff.mpr hall]
    rfl

theorem mem_of_mem_trim {s : String} {c : Char} (h : c ∈ (trim s).toList) : c ∈ s.toList := by
  rw [trim, String.toList_ofList] at h
  have hpiece := trimChars_infix s.toList
  exact hpiece.subset h

/-- Trimming at the end brings no blank to the start. -/
theorem trimStartChars_trimChars (s : List Char) : trimStartChars (trimChars s) = trimChars s := by
  refine List.dropWhile_eq_self_iff.mpr fun hpos => ?_
  have hfront : trimChars s <+: trimStartChars s := List.rdropWhile_prefix isBlank _
  have htwice : trimStartChars (trimStartChars s) = trimStartChars s :=
    List.dropWhile_idempotent isBlank s
  have hhead := List.dropWhile_eq_self_iff.mp htwice (hpos.trans_le hfront.length_le)
  rwa [hfront.getElem hpos]

/-- A trimmed text does not end with a blank. -/
theorem isBlank_getLast {s : List Char} (h : trimChars s = s) (hs : s ≠ []) :
    isBlank (s.getLast hs) = false := by
  have hend : s.rdropWhile isBlank = s := by
    have htwice := trimEndChars_trimEndChars (trimStartChars s)
    rwa [← trimChars, h] at htwice
  exact Bool.eq_false_iff.mpr (List.rdropWhile_eq_self_iff.mp hend hs)

theorem trim_trim (s : String) : trim (trim s) = trim s := by
  rw [trim, trim, String.toList_ofList, trimChars, trimStartChars_trimChars, trimChars,
    trimEndChars_trimEndChars]

end TermShell.Text
