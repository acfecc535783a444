import Mathlib.Data.List.Infix
import TermShell.Text.Split

/-!
# Occurrences of a separator

A text is cut at the places where a separator occurs, so all that can be said about the parts
comes down to where it occurs. The parts of a whole cutting hold no occurrence
(`not_infix_of_mem_splitOnChars`). Neither does the part in front of a single cut, and there
even an occurrence is ruled out that begins in the part and ends in the separator itself
(`of_cutChars?`).

An occurrence does not reach across a character that the separator does not hold. Such a
character is called a *guard* here: where texts are put together with guards between them, the
separator occurs in the whole only if it occurs in one of the texts (`infix_guard_iff`).
-/

namespace TermShell.Text

/-! ## Guards -/

/-- An occurrence at the start of a text does not reach past a guard. -/
theorem prefix_of_prefix_guard {g : Char} {rest : List Char} : ∀ {sep s : List Char}, g ∉ sep →
    sep <+: s ++ g :: rest → sep <+: s
  | [], _, _, _ => List.nil_prefix
  | x :: xs, [], hg, h => by
    obtain ⟨rfl, _⟩ := List.cons_prefix_cons.mp h
    exact absurd List.mem_cons_self hg
  | x :: xs, c :: cs, hg, h => by
    obtain ⟨rfl, hrest⟩ := List.cons_prefix_cons.mp h
    have hg' : g ∉ xs := fun hmem => hg (List.mem_cons_of_mem _ hmem)
    exact List.cons_prefix_cons.mpr ⟨rfl, prefix_of_prefix_guard hg' hrest⟩

variable {sep : List Char}

/-- **An occurrence lies on one side of a guard or on the other.** -/
theorem infix_guard_iff {g : Char} (hg : g ∉ sep) {s rest : List Char} :
    sep <:+: s ++ g :: rest ↔ sep <:+: s ∨ sep <:+: rest := by
  constructor
  · intro h
    induction s with
    | nil =>
      rcases List.infix_cons_iff.mp h with h | h
      · exact .inl (prefix_of_prefix_guard (s := []) hg h).isInfix
      · exact .inr h
    | cons c cs ih =>
      rcases List.infix_cons_iff.mp h with h | h
      · exact .inl (prefix_of_prefix_guard (s := c :: cs) hg h).isInfix
      · exact (ih h).imp List.infix_cons id
  · rintro (h | h)
    · exact List.infix_append_of_infix_left h
    · exact List.infix_append_of_infix_right (List.infix_cons h)

/-! ## Cutting at the first occurrence -/

/-- An occurrence that begins in front of another one ends before that one does. -/
theorem prefix_of_prefix_append {c : Char} {before after : List Char}
    (h : sep <+: c :: before ++ (sep ++ after)) : sep <+: c :: before ++ sep.dropLast := by
  have hother : c :: before ++ sep.dropLast <+: c :: before ++ (sep ++ after) :=
    (List.prefix_append_right_inj _).mpr ((List.dropLast_prefix _).trans (List.prefix_append ..))
  refine List.prefix_of_prefix_length_le h hother ?_
  simp only [List.length_append, List.length_cons, List.length_dropLast]
  omega

/-- **A text is cut where the separator occurs first.** -/
theorem of_cutChars? (hsep : sep ≠ []) {s before after : List Char}
    (h : cutChars? sep s = some (before, after)) :
    s = before ++ (sep ++ after) ∧ ¬ sep <:+: before ++ sep.dropLast := by
  induction s generalizing before with
  | nil => simp [cutChars?, hsep] at h
  | cons c cs ih =>
    unfold cutChars? at h
    split at h
    · rename_i rest hrest
      obtain ⟨rfl, rfl⟩ := Prod.mk.inj (Option.some.inj h)
      refine ⟨(List.isPrefixOf?_eq_some_iff_append_eq.mp hrest).symm, fun hin => ?_⟩
      -- what is left of a separator is too short to hold one
      have hlength := hin.length_le
      have hpos := List.length_pos_iff.mpr hsep
      simp only [List.nil_append, List.length_dropLast] at hlength
      omega
    · rename_i hnone
      obtain ⟨⟨bs, after'⟩, hcs, he⟩ := Option.map_eq_some_iff.mp h
      obtain ⟨rfl, rfl⟩ := Prod.mk.inj he
      obtain ⟨rfl, hnot⟩ := ih hcs
      refine ⟨rfl, fun hin => ?_⟩
      rcases List.infix_cons_iff.mp hin with hhere | hlater
      · obtain ⟨rest, hrest⟩ : sep <+: c :: (bs ++ (sep ++ after')) :=
          hhere.trans ((List.prefix_append_right_inj (c :: bs)).mpr
            ((List.dropLast_prefix _).trans (List.prefix_append ..)))
        have hsome := List.isPrefixOf?_eq_some_iff_append_eq.mpr hrest
        exact absurd (hnone.symm.trans hsome) (by simp)
      · exact hnot hlater

/-- A separator is found behind a text that neither holds it nor runs into it. -/
theorem cutChars?_append (hsep : sep ≠ []) {before : List Char} (after : List Char)
    (h : ¬ sep <:+: before ++ sep.dropLast) :
    cutChars? sep (before ++ (sep ++ after)) = some (before, after) := by
  induction before with
  | nil =>
    obtain ⟨x, xs, rfl⟩ := List.exists_cons_of_ne_nil hsep
    have hsome := List.isPrefixOf?_eq_some_iff_append_eq.mpr (rfl : x :: xs ++ after = _)
    rw [List.nil_append, List.cons_append, cutChars?, ← List.cons_append, hsome]
  | cons c bs ih =>
    have hnone : sep.isPrefixOf? (c :: (bs ++ (sep ++ after))) = none := by
      rw [Option.eq_none_iff_forall_ne_some]
      intro rest hrest
      have hprefix : sep <+: c :: bs ++ (sep ++ after) :=
        ⟨rest, List.isPrefixOf?_eq_some_iff_append_eq.mp hrest⟩
      exact h (prefix_of_prefix_append hprefix).isInfix
    have hlater : ¬ sep <:+: bs ++ sep.dropLast := fun hin => h (List.infix_cons hin)
    rw [List.cons_append, cutChars?, hnone, ih hlater]
    rfl

/-! ## Cutting at every occurrence -/

theorem splitOnChars_skip (skip : Nat) (s : List Char) :
    splitOnChars sep skip s = splitOnChars sep 0 (s.drop skip) := by
  induction s generalizing skip with
  | nil => simp [splitOnChars]
  | cons c cs ih =>
    cases skip with
    | zero => rfl
    | succ skip => exact ih skip

theorem splitOnChars_ne_nil (skip : Nat) (s : List Char) : splitOnChars sep skip s ≠ [] := by
  rw [splitOnChars_skip]
  cases s.drop skip with
  | nil => simp [splitOnChars]
  | cons c cs =>
    unfold splitOnChars
    split
    · simp
    · split <;> simp

/-- At an occurrence of the separator a part ends. -/
theorem splitOnChars_append (hsep : sep ≠ []) (rest : List Char) :
    splitOnChars sep 0 (sep ++ rest) = [] :: splitOnChars sep 0 rest := by
  obtain ⟨x, xs, rfl⟩ := List.exists_cons_of_ne_nil hsep
  have hprefix : (x :: xs).isPrefixOf (x :: (xs ++ rest)) = true :=
    List.isPrefixOf_iff_prefix.mpr (List.prefix_append (x :: xs) rest)
  rw [List.cons_append, splitOnChars, if_pos hprefix, splitOnChars_skip]
  simp

/-- Where the separator does not begin, the part goes on. -/
theorem splitOnChars_cons {c : Char} {cs : List Char} (h : ¬ sep <+: c :: cs) :
    splitOnChars sep 0 (c :: cs) = (splitOnChars sep 0 cs).modifyHead (c :: ·) := by
  rw [splitOnChars, if_neg (mt List.isPrefixOf_iff_prefix.mp h)]
  cases hcs : splitOnChars sep 0 cs with
  | nil => exact absurd hcs (splitOnChars_ne_nil 0 cs)
  | cons p ps => rfl

/-- The first part is what the text begins with. -/
theorem prefix_of_splitOnChars (hsep : sep ≠ []) {s p : List Char} {ps : List (List Char)}
    (h : splitOnChars sep 0 s = p :: ps) : p <+: s := by
  induction s generalizing p ps with
  | nil =>
    obtain ⟨rfl, _⟩ := List.cons.inj h
    exact List.nil_prefix
  | cons c cs ih =>
    by_cases hprefix : sep <+: c :: cs
    · obtain ⟨rest, hrest⟩ := hprefix
      rw [← hrest, splitOnChars_append hsep] at h
      obtain ⟨rfl, _⟩ := List.cons.inj h
      exact List.nil_prefix
    · rw [splitOnChars_cons hprefix] at h
      cases hcs : splitOnChars sep 0 cs with
      | nil => exact absurd hcs (splitOnChars_ne_nil 0 cs)
      | cons q qs =>
        rw [hcs] at h
        obtain ⟨rfl, _⟩ := List.cons.inj h
        exact List.cons_prefix_cons.mpr ⟨rfl, ih hcs⟩

/-- **No part holds an occurrence of the separator.** -/
theorem not_infix_of_mem_splitOnChars (hsep : sep ≠ []) {skip : Nat} {s p : List Char}
    (hp : p ∈ splitOnChars sep skip s) : ¬ sep <:+: p := by
  have hnil : ¬ sep <:+: [] := fun h => hsep (List.infix_nil.mp h)
  induction s generalizing skip p with
  | nil =>
    simp only [splitOnChars, List.mem_singleton] at hp
    exact hp ▸ hnil
  | cons c cs ih =>
    cases skip with
    | succ skip => exact ih hp
    | zero =>
      by_cases hprefix : sep <+: c :: cs
      · rw [splitOnChars, if_pos (List.isPrefixOf_iff_prefix.mpr hprefix)] at hp
        rcases List.mem_cons.mp hp with rfl | hp
        · exact hnil
        · exact ih hp
      · rw [splitOnChars_cons hprefix] at hp
        cases hcs : splitOnChars sep 0 cs with
        | nil => exact absurd hcs (splitOnChars_ne_nil 0 cs)
        | cons q qs =>
          rw [hcs] at hp
          rcases List.mem_cons.mp hp with rfl | hp
          · -- the part has become longer at the front, where no occurrence begins
            intro hin
            have hq := prefix_of_splitOnChars hsep hcs
            rcases List.infix_cons_iff.mp hin with hhere | hlater
            · exact hprefix (hhere.trans (List.cons_prefix_cons.mpr ⟨rfl, hq⟩))
            · exact ih (hcs ▸ List.mem_cons_self) hlater
          · exact ih (hcs ▸ List.mem_cons_of_mem _ hp)

/-- A guard behind a text without the separator belongs to the same part as the text. -/
theorem splitOnChars_guard {g : Char} (hg : g ∉ sep) (hsep : sep ≠ []) {s : List Char}
    (hs : ¬ sep <:+: s) (rest : List Char) :
    splitOnChars sep 0 (s ++ g :: rest) =
      (splitOnChars sep 0 rest).modifyHead (s ++ g :: ·) := by
  induction s with
  | nil =>
    refine splitOnChars_cons fun hprefix => hsep ?_
    exact List.prefix_nil.mp (prefix_of_prefix_guard (s := []) hg hprefix)
  | cons c cs ih =>
    have hhere : ¬ sep <+: c :: (cs ++ g :: rest) := fun hprefix =>
      hs (prefix_of_prefix_guard (s := c :: cs) hg hprefix).isInfix
    rw [List.cons_append, splitOnChars_cons hhere, ih fun hin => hs (List.infix_cons hin),
      List.modifyHead_modifyHead]
    rfl

/-- A text without the separator is one part. -/
theorem splitOnChars_of_not_infix {s : List Char} (h : ¬ sep <:+: s) :
    splitOnChars sep 0 s = [s] := by
  induction s with
  | nil => rfl
  | cons c cs ih =>
    have hhere : ¬ sep <+: c :: cs := fun hprefix => h hprefix.isInfix
    rw [splitOnChars_cons hhere, ih fun hin => h (List.infix_cons hin)]
    rfl

/-- What stands in front of the first separator is the first part. -/
theorem splitOnChars_append_separator (hsep : sep ≠ []) {before : List Char} (after : List Char)
    (h : ¬ sep <:+: before ++ sep.dropLast) :
    splitOnChars sep 0 (before ++ (sep ++ after)) = before :: splitOnChars sep 0 after := by
  induction before with
  | nil => exact splitOnChars_append hsep after
  | cons c bs ih =>
    have hhere : ¬ sep <+: c :: bs ++ (sep ++ after) := fun hprefix =>
      h (prefix_of_prefix_append hprefix).isInfix
    rw [List.cons_append] at hhere ⊢
    rw [splitOnChars_cons hhere, ih fun hin => h (List.infix_cons hin), List.modifyHead_cons]

/-- A text does not begin in front of itself where its first character does not stand. -/
theorem not_infix_append_dropLast {x : Char} {xs before : List Char} (h : x ∉ before) :
    ¬ x :: xs <:+: before ++ (x :: xs).dropLast := by
  induction before with
  | nil =>
    intro hin
    have hlength := hin.length_le
    simp only [List.nil_append, List.length_dropLast, List.length_cons] at hlength
    omega
  | cons c cs ih =>
    obtain ⟨hne, hcs⟩ := List.ne_and_not_mem_of_not_mem_cons h
    intro hin
    rcases List.infix_cons_iff.mp hin with hhere | hlater
    · exact hne (List.cons_prefix_cons.mp hhere).1
    · exact ih hcs hlater

/-- **A text that occurs once is replaced there**, whatever it is replaced by. -/
theorem replace_once {old new before after : String} (hold : old ≠ "")
    (hbefore : ¬ old.toList <:+: before.toList ++ old.toList.dropLast)
    (hafter : ¬ old.toList <:+: after.toList) :
    replace old new (before ++ old ++ after) = before ++ new ++ after := by
  have hne : old.toList ≠ [] := by simpa using hold
  have hchars : (before ++ old ++ after).toList =
      before.toList ++ (old.toList ++ after.toList) := by simp
  rw [replace, splitOn, hchars, splitOnChars_append_separator hne _ hbefore,
    splitOnChars_of_not_infix hafter]
  simp

/-! ## Cutting into lines -/

/-- No piece holds the character at which the list was cut. -/
theorem not_mem_of_mem_splitOn {x : Char} {s piece : List Char} (h : piece ∈ s.splitOn x) :
    x ∉ piece := by
  induction s generalizing piece with
  | nil =>
    obtain rfl : piece = [] := by simpa using h
    exact List.not_mem_nil
  | cons c cs ih =>
    rw [List.splitOn_cons_eq_if_modifyHead] at h
    split at h
    · rcases List.mem_cons.mp h with rfl | h
      · exact List.not_mem_nil
      · exact ih h
    · rename_i hc
      -- the first piece has one character more, which is another one
      cases hcs : cs.splitOn x with
      | nil => exact absurd hcs (List.splitOn_ne_nil x cs)
      | cons first more =>
        rw [hcs, List.modifyHead_cons] at h
        rcases List.mem_cons.mp h with rfl | h
        · have hother : x ≠ c := fun he => hc (beq_iff_eq.mpr he.symm)
          have hfirst := ih (hcs ▸ List.mem_cons_self)
          simp [hother, hfirst]
        · exact ih (hcs ▸ List.mem_cons_of_mem _ h)

/-! ## Texts put together -/

theorem not_mem_intercalate {c : Char} {sep : String} {parts : List String}
    (hsep : c ∉ sep.toList) (h : ∀ part ∈ parts, c ∉ part.toList) :
    c ∉ (String.intercalate sep parts).toList := by
  induction parts with
  | nil => simp
  | cons part rest ih =>
    have hpart := h part List.mem_cons_self
    have hrest := ih fun p hp => h p (List.mem_cons_of_mem _ hp)
    cases rest with
    | nil => simpa using hpart
    | cons next more =>
      rw [String.intercalate_cons_cons, String.toList_append, String.toList_append]
      simp only [List.mem_append, hpart, hsep, hrest, or_self, not_false_eq_true]

/-- The pieces of a text between line feeds are those of its parts. -/
theorem splitOn_intercalate_newline_eq_flatMap {parts : List String} (hne : parts ≠ []) :
    (String.intercalate "\n" parts).toList.splitOn '\n' =
      parts.flatMap fun part => part.toList.splitOn '\n' := by
  induction parts with
  | nil => exact absurd rfl hne
  | cons part rest ih =>
    cases rest with
    | nil => simp
    | cons next more =>
      have hchars : (String.intercalate "\n" (part :: next :: more)).toList =
          part.toList ++ '\n' :: (String.intercalate "\n" (next :: more)).toList := by
        simp
      rw [hchars, List.splitOn_append_cons_self, ih (by simp)]
      rfl

/-- The lines of a text that is put together from lines. -/
theorem splitOn_intercalate_newline {lines : List String} (hne : lines ≠ [])
    (h : ∀ line ∈ lines, '\n' ∉ line.toList) :
    (String.intercalate "\n" lines).toList.splitOn '\n' = lines.map String.toList := by
  have hchars : (String.intercalate "\n" lines).toList =
      ['\n'].intercalate (lines.map String.toList) := by
    simp
  rw [hchars]
  refine List.splitOn_intercalate '\n' (fun part hpart => ?_) (by simpa using hne)
  obtain ⟨line, hline, rfl⟩ := List.mem_map.mp hpart
  exact h line hline

end TermShell.Text
