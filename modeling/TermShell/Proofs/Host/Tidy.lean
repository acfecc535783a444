import TermShell.Proofs.Host.Session
import TermShell.Proofs.Interpreter.Numbers
import TermShell.Proofs.Source
import TermShell.Proofs.Text.Split

/-!
# What a script cannot write

A text is tidy if none of its lines ends with a blank. A script cannot make a file that is not
tidy: a new file is empty, it gets contents only from the editor, and the editor gets only lines
from which the blanks at the end are gone.

`Tidied` says this of the files that have been made since a certain time. They are told apart from
those that were there by their numbers, for no number is used twice; a node that was there has
kept its name and its place. `tidied_run` says that every run on tidy lines keeps to it.
-/

namespace TermShell

open Calendar (Instant)

/-! ## Tidy texts -/

namespace Text

/-- No line of the text ends with a blank. -/
def Tidy (s : String) : Prop := ∀ line ∈ s.toList.splitOn '\n', trimEndChars line = line

instance (s : String) : Decidable (Tidy s) := inferInstanceAs (Decidable (∀ _ ∈ _, _))

theorem tidy_empty : Tidy "" := by decide

theorem trimEnd_eq_self_iff {s : String} : trimEnd s = s ↔ trimEndChars s.toList = s.toList := by
  rw [← String.toList_inj, trimEnd, String.toList_ofList]

theorem tidy_intercalate_iff {lines : List String} (h : ∀ line ∈ lines, '\n' ∉ line.toList) :
    Tidy (String.intercalate "\n" lines) ↔ ∀ line ∈ lines, trimEnd line = line := by
  by_cases hne : lines = []
  · subst hne
    exact iff_of_true tidy_empty (by simp)
  · rw [Tidy, splitOn_intercalate_newline hne h]
    simp only [List.forall_mem_map, trimEnd_eq_self_iff]

end Text

/-! ## Volumes -/

/-- Nodes that were there have kept their places, and files that have been made since are tidy. -/
structure Volume.Tidied (v₀ v : Volume) : Prop where
  next_le : v₀.next ≤ v.next
  old : ∀ id n', v.tree.get? id = some n' → id < v₀.next →
    ∃ n, v₀.tree.get? id = some n ∧ n.SamePlace n'
  tidy : ∀ id n', v.tree.get? id = some n' → v₀.next ≤ id → Text.Tidy n'.text

namespace Volume.Tidied

variable {v₀ v v' : Volume}

theorem refl (v : Volume) : v.Tidied v where
  next_le := Nat.le_refl _
  old _ n hn _ := ⟨n, hn, .refl n⟩
  tidy _ _ hn hid := absurd (hn.symm.trans (Arena.get?_eq_none_of_bound_le (v.bound_le.trans hid)))
    (by simp)

/-- A node with a tidy text, or one that has kept its text, does no harm in its place. -/
theorem step (h : v₀.Tidied v) (hnext : v.next ≤ v'.next)
    (hnodes : ∀ id n', v'.tree.get? id = some n' →
      (id = v.next ∧ Text.Tidy n'.text) ∨
        ∃ n, v.tree.get? id = some n ∧ n.SamePlace n' ∧
          (Text.Tidy n'.text ∨ n'.text = n.text)) : v₀.Tidied v' where
  next_le := h.next_le.trans hnext
  old id n' hn' hid := by
    rcases hnodes id n' hn' with ⟨rfl, _⟩ | ⟨n, hn, hplace, _⟩
    · exact absurd hid (Nat.not_lt.mpr h.next_le)
    · obtain ⟨m, hm, hold⟩ := h.old id n hn hid
      exact ⟨m, hm, hold.trans hplace⟩
  tidy id n' hn' hid := by
    rcases hnodes id n' hn' with ⟨_, htidy⟩ | ⟨n, hn, _, htidy | hsame⟩
    · exact htidy
    · exact htidy
    · rw [hsame]
      exact h.tidy id n hn hid

theorem execute (h : v₀.Tidied v) (hv : v.tree.Sound) (now : Instant) (line : String) :
    v₀.Tidied (Interpreter.execute now v line).1 := by
  rcases Interpreter.execute_cases now hv line with ⟨hsame, _⟩ | ⟨l, c, hdeed⟩
  · rwa [hsame]
  · refine h.step (Interpreter.next_le_execute now v line) fun id n' hn' => ?_
    rcases hdeed.node_cases hn' with hmakes | ⟨n, hn, hplace, _, hsame⟩
    · exact .inl ⟨(Tree.id_of_get? hn').symm.trans hmakes.id, hmakes.text ▸ Text.tidy_empty⟩
    · exact .inr ⟨n, hn, hplace, .inr hsame⟩

theorem write (h : v₀.Tidied v) {n : Node} (hf : n.isFile = true) {contents : String}
    (hcontents : Text.Tidy contents) (hnext : v.next ≤ v'.next)
    (halt : v.tree.Altered n (n.withContents contents) v'.tree) : v₀.Tidied v' := by
  refine h.step hnext fun id n' hn' => .inr ?_
  rcases halt.get?_cases hn' with ⟨rfl, rfl⟩ | ⟨_, hold⟩
  · exact ⟨n, halt.before, n.samePlace_withContents contents,
      .inl ((n.text_withContents hf contents).symm ▸ hcontents)⟩
  · exact ⟨n', hold, .refl n', .inr rfl⟩

end Volume.Tidied

/-! ## Steps and runs -/

namespace Host

/-- The line could come from a script. -/
def TidyLine (line : String) : Prop := '\n' ∉ line.toList ∧ Text.trimEnd line = line

/-- The lines for the file come from the source. -/
theorem mem_of_mem_collect {line : String} : ∀ {readings : List Reading},
    line ∈ (collect readings).lines → .line line ∈ readings
  | .line text :: rest, h => by
    unfold collect at h
    split at h
    · exact absurd h (by simp)
    · rcases List.mem_cons.mp h with rfl | h
      · exact List.mem_cons_self
      · exact List.mem_cons_of_mem _ (mem_of_mem_collect h)

theorem next_le_edit (h : Host) (file : Nat) (name : String) (scripted : Bool)
    (readings : List Reading) :
    h.volume.next ≤ (h.edit file name scripted readings).host.volume.next := by
  rcases h.edit_turn_cases file name scripted readings with
    ⟨_, _, _, he⟩ | ⟨_, _, _, _, he⟩ | ⟨_, _, _, hwrite, he⟩
  · rw [he]
  · rw [he]
  · rw [he]
    exact Volume.next_le_of_adopt hwrite

variable {v₀ : Volume} {h : Host} {readings : List Reading}

theorem tidied_edit (ht : v₀.Tidied h.volume) {n : Node}
    (hn : h.volume.tree.get? n.id = some n) (hf : n.isFile = true) (name : String)
    (scripted : Bool) (hlines : ∀ line, .line line ∈ readings → TidyLine line) :
    v₀.Tidied (h.edit n.id name scripted readings).host.volume := by
  rcases h.edit_cases hn hf name scripted readings with ⟨_, hsame⟩ | ⟨_, halt⟩
  · rwa [hsame]
  · have htaken := fun line hline => hlines line (mem_of_mem_collect hline)
    have htidy := (Text.tidy_intercalate_iff fun line hline => (htaken line hline).1).mpr
      fun line hline => (htaken line hline).2
    exact ht.write hf htidy (h.next_le_edit ..) halt

theorem tidied_step (hs : h.volume.tree.Sound) (ht : v₀.Tidied h.volume) (line : String)
    (scripted : Bool) (hlines : ∀ line, .line line ∈ readings → TidyLine line) :
    v₀.Tidied (h.step line scripted readings).host.volume := by
  have hentered : v₀.Tidied (h.enter line).1.volume := by
    rw [volume_enter]
    exact ht.execute hs h.now line
  rcases volume_step_cases hs line scripted readings with hsame | ⟨n, name, hn, hf, _, hstep⟩
  · rwa [hsame]
  · rw [hstep]
    exact tidied_edit hentered hn hf name scripted hlines

/-- **A run on lines that could come from a script makes only tidy files.** -/
theorem tidied_run (hs : h.volume.tree.Sound) (ht : v₀.Tidied h.volume) (scripted : Bool)
    (hlines : ∀ line, .line line ∈ readings → TidyLine line) :
    v₀.Tidied (h.run scripted readings).host.volume := by
  -- a step has to find the tree sound, so the two are carried through the run together
  refine (run_keeps (P := fun v => v.tree.Sound ∧ v₀.Tidied v) ?_ ⟨hs, ht⟩).2
  intro g text rest hrest ⟨hsound, htidied⟩
  refine ⟨((step_moves hsound text scripted rest).sound hsound).1,
    tidied_step hsound htidied text scripted fun line hline => ?_⟩
  exact hlines line (hrest.subset (List.mem_cons_of_mem _ hline))

end Host

end TermShell
