import TermShell.Proofs.Path
import TermShell.Tree.Address

/-!
# Paths that go on from another one

A node at or below the current directory is shown without the path of that directory. Whether it is
such a node is read off the two paths: one has to go on from the other, and it has to do so at a
slash, for `/notes` begins with `/note` and has nothing to do with it. `Continues` says this, and
`relativePath_cases` says that nothing else is looked at.

To the components it means that those of the one path come first and those of the rest behind them
(`Continues.components_eq`). For paths that spell names the converse is true as well
(`exists_continues_spelled`), so that for them one path goes on from another exactly if the names of
the one are the first names of the other.
-/

namespace TermShell

/-- Two lists of parts that are joined, and what they make when they are joined as one. -/
theorem Text.intercalate_append (sep : String) {front back : List String} (hfront : front ≠ [])
    (hback : back ≠ []) : String.intercalate sep (front ++ back) =
      String.intercalate sep front ++ (sep ++ String.intercalate sep back) := by
  induction front with
  | nil => exact absurd rfl hfront
  | cons first rest ih =>
    rw [List.cons_append, String.intercalate_cons_of_ne_nil (by simp [hback])]
    cases rest with
    | nil => rw [List.nil_append, String.intercalate_singleton, String.append_assoc]
    | cons second rest =>
      rw [ih (by simp), String.intercalate_cons_cons]
      simp only [String.append_assoc]

theorem Text.after?_eq_some_iff {start s rest : String} :
    after? start s = some rest ↔ s = start ++ rest := by
  rw [after?, Option.map_eq_some_iff]
  simp only [List.isPrefixOf?_eq_some_iff_append_eq]
  constructor
  · rintro ⟨chars, hchars, rfl⟩
    rw [← String.toList_inj, String.toList_append, String.toList_ofList, hchars]
  · rintro rfl
    exact ⟨rest.toList, String.toList_append.symm, String.ofList_toList⟩

namespace Path

/-! ## Slashes in front -/

/-- Slashes in front do not matter to the components. -/
theorem components_dropLeading (path : String) :
    components (Text.dropLeading separator path) = components path := by
  rw [components, Text.dropLeading, String.toList_ofList, Text.runs_dropWhile, components]

theorem isAbsolute_dropLeading (path : String) :
    isAbsolute (Text.dropLeading separator path) = false := by
  rw [isAbsolute, Text.beginsWith, Text.dropLeading, String.toList_ofList]
  induction path.toList with
  | nil => rfl
  | cons c cs ih =>
    by_cases hc : c = separator
    · rwa [List.dropWhile_cons_of_pos (by simp [hc])]
    · rw [List.dropWhile_cons_of_neg (by simp [hc])]
      simp [hc]

theorem dropLeading_append (s : String) :
    Text.dropLeading separator (rootText ++ s) = Text.dropLeading separator s := by
  have hchars : (rootText ++ s).toList = separator :: s.toList := by simp [rootText, separator]
  rw [Text.dropLeading, hchars, List.dropWhile_cons_of_pos (by simp), Text.dropLeading]

theorem dropLeading_of_not_isAbsolute {s : String} (h : isAbsolute s = false) :
    Text.dropLeading separator s = s := by
  rw [isAbsolute, Text.beginsWith] at h
  rw [Text.dropLeading]
  cases hs : s.toList with
  | nil => exact (String.toList_eq_nil_iff.mp hs).symm
  | cons c cs =>
    rw [hs] at h
    rw [List.dropWhile_cons_of_neg (by simpa using h), ← hs, String.ofList_toList]

/-- Joined names do not begin with a slash. -/
theorem isAbsolute_intercalate {names : List String}
    (h : ∀ name ∈ names, name ≠ "" ∧ separator ∉ name.toList) :
    isAbsolute (String.intercalate "/" names) = false := by
  cases names with
  | nil => rfl
  | cons first rest =>
    obtain ⟨hne, hslash⟩ := h first List.mem_cons_self
    cases rest with
    | nil =>
      rw [String.intercalate_singleton]
      exact (components_of_not_mem hne hslash).2
    | cons second rest =>
      have hchars : first.toList ≠ [] := fun hnil => hne (String.toList_eq_nil_iff.mp hnil)
      rw [String.intercalate_cons_cons, String.append_assoc, isAbsolute, Text.beginsWith,
        String.toList_append, List.head?_append_of_ne_nil _ hchars]
      exact (components_of_not_mem hne hslash).2

/-! ## Going on from a path -/

/-- The path goes on from `base` with `rest`, and it does so between two components. -/
structure Continues (base path rest : String) : Prop where
  append : path = base ++ rest
  boundary : base = rootText ∨ rest = "" ∨ isAbsolute rest = true

variable {base path rest : String}

theorem Continues.unique (h : Continues base path rest) {rest' : String}
    (h' : Continues base path rest') : rest' = rest :=
  (String.append_right_inj base).mp (h'.append.symm.trans h.append)

theorem Continues.refl (base : String) : Continues base base "" :=
  ⟨String.append_empty.symm, .inr (.inl rfl)⟩

/-- **The components of what a path goes on from come first.** -/
theorem Continues.components_eq (h : Continues base path rest) :
    components path = components base ++ components rest := by
  rw [h.append]
  rcases h.boundary with rfl | rfl | habsolute
  · exact components_rootText_append rest
  · rw [String.append_empty]
    exact (List.append_nil _).symm
  · obtain ⟨tail, htail⟩ := List.head?_eq_some_iff.mp (beq_iff_eq.mp habsolute)
    have hrest : rest = rootText ++ String.ofList tail := by
      rw [← String.toList_inj, htail]
      simp [rootText, separator]
    rw [hrest, ← String.append_assoc, components_rootText_append]
    exact components_join base _

/-- **A path that spells more names goes on from the one that spells the first of them.** -/
theorem exists_continues_spelled (front : List String) {back : List String}
    (h : ∀ name ∈ back, name ≠ "" ∧ separator ∉ name.toList) :
    ∃ rest, Continues (Tree.spell front) (Tree.spell (front ++ back)) rest ∧
      Text.dropLeading separator rest = String.intercalate "/" back := by
  by_cases hfront : front = []
  · exact ⟨String.intercalate "/" back, ⟨by rw [hfront]; rfl, .inl (by rw [hfront]; rfl)⟩,
      dropLeading_of_not_isAbsolute (isAbsolute_intercalate h)⟩
  by_cases hback : back = []
  · exact ⟨"", ⟨by rw [hback, List.append_nil, String.append_empty], .inr (.inl rfl)⟩,
      by rw [hback]; rfl⟩
  · refine ⟨"/" ++ String.intercalate "/" back, ⟨?_, .inr (.inr (isAbsolute_spelled back))⟩, ?_⟩
    · rw [Tree.spell, Text.intercalate_append "/" hfront hback, ← String.append_assoc]
      rfl
    · exact (dropLeading_append _).trans
        (dropLeading_of_not_isAbsolute (isAbsolute_intercalate h))

end Path

/-- **All that a relative path can be**: what is left of a path that goes on from that of the
current directory, or else the whole path. -/
theorem Tree.relativePath_cases (t : Tree) (n : Node) :
    (∃ rest, Path.Continues t.currentPath (t.path n) rest ∧
      t.relativePath n = Text.dropLeading Path.separator rest) ∨
    ((∀ rest, ¬ Path.Continues t.currentPath (t.path n) rest) ∧ t.relativePath n = t.path n) := by
  unfold relativePath
  by_cases hroot : t.currentPath = Path.rootText
  · rw [hroot]
    exact .inl ⟨String.intercalate "/" (t.names n), ⟨rfl, .inl rfl⟩, Path.dropLeading_append _⟩
  · simp only [if_neg hroot]
    cases hafter : Text.after? t.currentPath (t.path n) with
    | none =>
      refine .inr ⟨fun rest hrest => ?_, rfl⟩
      exact absurd (hafter.symm.trans (Text.after?_eq_some_iff.mpr hrest.append)) (by simp)
    | some rest =>
      have happend := Text.after?_eq_some_iff.mp hafter
      by_cases hboundary : rest = "" ∨ Path.isAbsolute rest = true
      · exact .inl ⟨rest, ⟨happend, .inr hboundary⟩, by simp [String.isEmpty_iff, hboundary]⟩
      · refine .inr ⟨fun rest' hrest' => ?_, by simp [String.isEmpty_iff, hboundary]⟩
        obtain rfl := (String.append_right_inj t.currentPath).mp (happend.symm.trans hrest'.append)
        exact hboundary (hrest'.boundary.resolve_left hroot)

end TermShell
