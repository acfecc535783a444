import TermShell.Text.Case

/-!
# Letter case

Folding makes small letters and nothing else. So a keyword without letters, like a path of dots or
of slashes, is met by one text only, while one with letters is met in several spellings.
-/

namespace TermShell.Text

/-- A character is folded to a small letter or not at all. -/
theorem foldChar_cases (c : Char) : foldChar c = c ∨ (foldChar c).isLower = true := by
  unfold foldChar
  split
  · rename_i hcapital
    have hlow : 65 ≤ c.toNat := hcapital.1
    have hhigh : c.toNat ≤ 90 := hcapital.2
    have hsmall : ∀ n < 26, (Char.ofNat (65 + n + 32)).isLower = true := by decide
    have hfolded := hsmall (c.toNat - 65) (by omega)
    rw [Nat.add_sub_cancel' hlow] at hfolded
    exact .inr hfolded
  · split
    · exact .inr (by decide)
    · exact .inl rfl

/-- Small letters are folded already. -/
theorem foldChar_of_isLower {c : Char} (h : c.isLower = true) : foldChar c = c := by
  obtain ⟨hlow, hhigh⟩ := Bool.and_eq_true_iff.mp h
  have hlow : 97 ≤ c.toNat := of_decide_eq_true hlow
  have hhigh : c.toNat ≤ 122 := of_decide_eq_true hhigh
  have hcapital : ¬ ('A' ≤ c ∧ c ≤ 'Z') := by
    rintro ⟨_, hle⟩
    have hle : c.toNat ≤ 90 := hle
    omega
  have hkelvin : c ≠ '\u212A' := by
    rintro rfl
    exact absurd hhigh (by decide)
  rw [foldChar, if_neg hcapital, if_neg hkelvin]

/-- A text is folded once and for all. -/
theorem foldCase_foldCase (s : String) : foldCase (foldCase s) = foldCase s := by
  have hchar : ∀ c, foldChar (foldChar c) = foldChar c := by
    intro c
    rcases foldChar_cases c with hsame | hlower
    · rw [hsame, hsame]
    · exact foldChar_of_isLower hlower
  simp [foldCase, Function.comp_def, hchar]

/-- **Only the word itself is folded to a word without small letters.** -/
theorem eq_of_foldCase_eq {s word : String} (h : word.toList.any Char.isLower = false)
    (hs : foldCase s = word) : s = word := by
  have hchars : s.toList.map foldChar = word.toList := by
    rw [← hs, foldCase, String.toList_ofList]
  have hsame : ∀ c ∈ s.toList, foldChar c = c := by
    intro c hc
    refine (foldChar_cases c).resolve_right fun hlower => ?_
    exact List.any_eq_false.mp h _ (hchars ▸ List.mem_map_of_mem hc) hlower
  rw [← String.toList_inj, ← hchars, List.map_congr_left hsame, List.map_id']

end TermShell.Text
