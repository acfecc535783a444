import TermShell.Proofs.Text.Split
import TermShell.Text.Lines

/-!
# Lines

Lines that are put into one text, with line feeds between them, are read from it again, unless a
line is taken for something else: an empty line at the end of the text is none, a carriage return
at the end of a line belongs to the line end, and a line feed ends the line it stands in
(`lines_intercalate_newline`). In the lines that are read no line feed is left.
-/

namespace TermShell.Text

theorem dropReturn_prefix (s : List Char) : dropReturn s <+: s := by
  unfold dropReturn
  split
  · exact List.dropLast_prefix s
  · exact List.prefix_refl s

/-- A line is what a piece begins with. -/
theorem exists_of_mem_linesOfPieces {line : List Char} : ∀ {pieces : List (List Char)},
    line ∈ linesOfPieces pieces → ∃ piece ∈ pieces, line <+: piece
  | [last], h => by
    unfold linesOfPieces at h
    split at h
    · exact absurd h List.not_mem_nil
    · obtain rfl := List.mem_singleton.mp h
      exact ⟨line, List.mem_singleton_self line, List.prefix_refl line⟩
  | piece :: next :: rest, h => by
    rcases List.mem_cons.mp h with rfl | hlater
    · exact ⟨piece, List.mem_cons_self, dropReturn_prefix piece⟩
    · obtain ⟨p, hp, hfront⟩ := exists_of_mem_linesOfPieces hlater
      exact ⟨p, List.mem_cons_of_mem _ hp, hfront⟩

/-- **No line holds a line feed.** -/
theorem newline_not_mem_of_mem_lines {text line : String} (h : line ∈ lines text) :
    '\n' ∉ line.toList := by
  obtain ⟨chars, hchars, rfl⟩ := List.mem_map.mp h
  obtain ⟨piece, hpiece, hfront⟩ := exists_of_mem_linesOfPieces hchars
  rw [String.toList_ofList]
  exact fun hc => not_mem_of_mem_splitOn hpiece (hfront.subset hc)

theorem linesOfPieces_eq_self : ∀ {pieces : List (List Char)},
    (∀ piece ∈ pieces, piece ≠ [] ∧ piece.getLast? ≠ some '\r') → linesOfPieces pieces = pieces
  | [], _ => rfl
  | [last], h => if_neg (by simpa using (h last List.mem_cons_self).1)
  | piece :: next :: rest, h => by
    have hpiece : dropReturn piece = piece := if_neg (h piece List.mem_cons_self).2
    rw [linesOfPieces, hpiece,
      linesOfPieces_eq_self fun p hp => h p (List.mem_cons_of_mem _ hp)]

/-- **Lines are read from a text that is put together from them.** -/
theorem lines_intercalate_newline {ls : List String}
    (h : ∀ line ∈ ls, line ≠ "" ∧ line.toList.getLast? ≠ some '\r' ∧ '\n' ∉ line.toList) :
    lines (String.intercalate "\n" ls) = ls := by
  by_cases hne : ls = []
  · subst hne
    rfl
  · have hpieces : ∀ piece ∈ ls.map String.toList, piece ≠ [] ∧ piece.getLast? ≠ some '\r' := by
      refine List.forall_mem_map.mpr fun line hline => ?_
      obtain ⟨hempty, hreturn, _⟩ := h line hline
      exact ⟨by simpa using hempty, hreturn⟩
    rw [lines, linesChars, splitOn_intercalate_newline hne fun line hline => (h line hline).2.2,
      linesOfPieces_eq_self hpieces, List.map_map]
    simp [Function.comp_def]

end TermShell.Text
