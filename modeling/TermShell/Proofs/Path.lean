import TermShell.Proofs.Names
import TermShell.Proofs.Text.Case
import TermShell.Proofs.Text.Runs

/-!
# Names in paths

A path is cut at slashes and its empty pieces are dropped, so not every list of names can be
read back from the path that spells it: a name must not be empty and must not hold a slash.
Valid names are neither. What the theory of walks needs to know about the cutting of texts is that
such names are read back (`components_spelled`), and that a slash between two paths keeps their
components apart (`components_join`).

A path typed by the user is first trimmed and looked up among the shorthands. `classify_cases`
says all that it can be taken for. Trimming matters, for blanks are no slashes: whatever blanks
are left at the ends of a path become part of its components (`components_trim_iff`).
-/

namespace TermShell.Path

/-- The pieces of a joined list of parts are the parts. -/
theorem runs_intercalate {parts : List (List Char)}
    (h : ∀ part ∈ parts, part ≠ [] ∧ separator ∉ part) :
    Text.runs (· == separator) ([separator].intercalate parts) = parts := by
  cases parts with
  | nil => rfl
  | cons first rest =>
    have hsplit : ([separator].intercalate (first :: rest)).splitOnP (· == separator) =
        first :: rest :=
      List.splitOn_intercalate separator (fun part hpart => (h part hpart).2) (by simp)
    rw [Text.runs, hsplit, List.filter_eq_self]
    intro part hpart
    simpa using (h part hpart).1

/-- The components as lists of characters are the pieces. -/
theorem map_toList_components (path : String) :
    (components path).map String.toList = Text.runs (· == separator) path.toList := by
  have hchars : String.toList ∘ String.ofList = id := funext fun _ => String.toList_ofList
  rw [components, List.map_map, hchars, List.map_id]

/-- **A joined path has the components of both.** -/
theorem components_join (a b : String) :
    components (a ++ "/" ++ b) = components a ++ components b := by
  have hchars : (a ++ "/" ++ b).toList = a.toList ++ separator :: b.toList := by simp [separator]
  rw [components, hchars, Text.runs_append_cons (by simp), List.map_append, components, components]

/-- A slash in front adds nothing to the components. -/
theorem components_rootText_append (s : String) : components (rootText ++ s) = components s := by
  have hjoin := components_join "" s
  rw [String.empty_append] at hjoin
  exact hjoin

/-- **The path that spells some names has these names as its components.** -/
theorem components_spelled {names : List String}
    (h : ∀ name ∈ names, name ≠ "" ∧ separator ∉ name.toList) :
    components (rootText ++ String.intercalate "/" names) = names := by
  have hchars : (String.intercalate "/" names).toList =
      [separator].intercalate (names.map String.toList) := by
    simp [separator]
  have hparts : ∀ part ∈ names.map String.toList, part ≠ [] ∧ separator ∉ part := by
    intro part hpart
    obtain ⟨name, hname, rfl⟩ := List.mem_map.mp hpart
    exact ⟨fun hnil => (h name hname).1 (String.toList_eq_nil_iff.mp hnil), (h name hname).2⟩
  rw [components_rootText_append, components, hchars, runs_intercalate hparts, List.map_map]
  simp [Function.comp_def]

theorem isAbsolute_spelled (names : List String) :
    isAbsolute (rootText ++ String.intercalate "/" names) = true := by
  simp [isAbsolute, Text.beginsWith, rootText, separator]

/-- A name without slashes is a path of one component, which starts where one is. -/
theorem components_of_not_mem {name : String} (hname : name ≠ "")
    (hslash : separator ∉ name.toList) :
    components name = [name] ∧ isAbsolute name = false := by
  constructor
  · have hfree : ∀ c ∈ name.toList, (c == separator) = false := by
      intro c hc
      exact beq_eq_false_iff_ne.mpr fun he => hslash (he ▸ hc)
    have hchars : name.toList ≠ [] := fun hnil => hname (String.toList_eq_nil_iff.mp hnil)
    rw [components, Text.runs_of_free hfree, if_neg hchars, List.map_singleton,
      String.ofList_toList]
  · refine Bool.eq_false_iff.mpr fun habsolute => hslash ?_
    exact List.mem_of_mem_head? (beq_iff_eq.mp habsolute)

/-! ## Blanks at the ends -/

/-- The components of a path hold all of it but the slashes. -/
theorem flatMap_components (path : String) :
    (components path).flatMap String.toList = path.toList.filter (· != separator) := by
  rw [List.flatMap_def, map_toList_components, Text.flatten_runs]
  rfl

theorem filter_separator_of_isBlank {s : List Char} (h : ∀ c ∈ s, Text.isBlank c = true) :
    s.filter (· != separator) = s := by
  refine List.filter_eq_self.mpr fun c hc => bne_iff_ne.mpr ?_
  rintro rfl
  exact absurd (h _ hc) (by decide)

/-- **A path has other components when it is trimmed**, unless there is nothing to trim. -/
theorem components_trim_iff (path : String) :
    components (Text.trim path) = components path ↔ Text.trim path = path := by
  refine ⟨fun h => ?_, fun h => by rw [h]⟩
  obtain ⟨front, back, hpath, hfront, hback⟩ := Text.exists_around_trimChars path.toList
  -- the characters of the components are counted with and without the blanks
  have hchars := congrArg (List.flatMap String.toList) h
  rw [flatMap_components, flatMap_components, hpath, List.filter_append, List.filter_append,
    filter_separator_of_isBlank hfront, filter_separator_of_isBlank hback, Text.trim,
    String.toList_ofList] at hchars
  have hlength := congrArg List.length hchars
  simp only [List.length_append] at hlength
  obtain rfl : front = [] := List.length_eq_zero_iff.mp (by omega)
  obtain rfl : back = [] := List.length_eq_zero_iff.mp (by omega)
  rw [List.nil_append, List.append_nil] at hpath
  rw [Text.trim, ← hpath, String.ofList_toList]

/-! ## Paths typed by the user -/

theorem classify_trim (path : String) : classify (Text.trim path) = classify path := by
  simp only [classify, Text.trim_trim]

/-- **All that a path can be taken for**, once it has been trimmed. -/
theorem classify_cases (path : String) :
    (Text.foldCase (Text.trim path) = "root" ∧ classify path = .root) ∨
    (Text.foldCase (Text.trim path) = "~" ∧ classify path = .home) ∨
    (Text.trim path = "." ∧ classify path = .current) ∨
    (Text.trim path = ".." ∧ classify path = .parent) ∨
    (isAbsolute (Text.trim path) = true ∧
      (components (Text.trim path) = [] ∧ classify path = .root ∨
        classify path = .absolute (components (Text.trim path)))) ∨
    (isAbsolute (Text.trim path) = false ∧
      classify path = .relative (components (Text.trim path))) := by
  unfold classify
  generalize Text.trim path = trimmed
  dsimp only
  by_cases hroot : Text.foldCase trimmed = "root"
  · exact .inl ⟨hroot, by rw [hroot]; rfl⟩
  by_cases hhome : Text.foldCase trimmed = "~"
  · exact .inr (.inl ⟨hhome, by rw [hhome]; rfl⟩)
  -- the other shorthands have no letters, and so there is one text for each
  by_cases hdot : Text.foldCase trimmed = "."
  · obtain rfl := Text.eq_of_foldCase_eq (by decide) hdot
    exact .inr (.inr (.inl ⟨rfl, rfl⟩))
  by_cases hdots : Text.foldCase trimmed = ".."
  · obtain rfl := Text.eq_of_foldCase_eq (by decide) hdots
    exact .inr (.inr (.inr (.inl ⟨rfl, rfl⟩)))
  by_cases hslash : Text.foldCase trimmed = rootText
  · obtain rfl := Text.eq_of_foldCase_eq (by decide) hslash
    exact .inr (.inr (.inr (.inr (.inl ⟨by decide, .inl ⟨by decide, rfl⟩⟩))))
  have hnone : shorthand? (Text.foldCase trimmed) = none := by
    rw [shorthand?, if_neg (by simp [hslash, hroot]), if_neg hdot, if_neg hdots, if_neg hhome]
  rw [hnone]
  cases habsolute : isAbsolute trimmed with
  | false => exact .inr (.inr (.inr (.inr (.inr ⟨rfl, rfl⟩))))
  | true =>
    refine .inr (.inr (.inr (.inr (.inl ⟨rfl, ?_⟩))))
    cases components trimmed with
    | nil => exact .inl ⟨rfl, rfl⟩
    | cons c cs => exact .inr rfl

/-- A name is taken for a way down of one step, unless it is one of the two shorthands that are
names. -/
theorem classify_of_name {name : String} (hname : isValidName name = true)
    (hblank : ∀ c ∈ name.toList, Text.isBlank c = false) (hroot : Text.foldCase name ≠ "root")
    (hhome : Text.foldCase name ≠ "~") : classify name = .relative [name] := by
  obtain ⟨hempty, hdot, hdots, hslash, _⟩ := isValidName_iff.mp hname
  obtain ⟨hcomponents, habsolute⟩ := components_of_not_mem hempty hslash
  have htrim : Text.trim name = name := by
    by_contra hne
    obtain ⟨c, hc, hcblank⟩ := Text.exists_isBlank_of_trim_ne hne
    exact absurd ((hblank c hc).symm.trans hcblank) (by simp)
  have hcases := classify_cases name
  rw [htrim, hcomponents, habsolute] at hcases
  rcases hcases with ⟨h, _⟩ | ⟨h, _⟩ | ⟨h, _⟩ | ⟨h, _⟩ | ⟨h, _⟩ | ⟨_, he⟩
  · exact absurd h hroot
  · exact absurd h hhome
  · exact absurd h hdot
  · exact absurd h hdots
  · exact absurd h (by simp)
  · exact he

theorem eq_components_of_classify {path : String} {cs : List String}
    (h : classify path = .relative cs) : cs = components (Text.trim path) := by
  rcases classify_cases path with
    ⟨_, he⟩ | ⟨_, he⟩ | ⟨_, he⟩ | ⟨_, he⟩ | ⟨_, ⟨_, he⟩ | he⟩ | ⟨_, he⟩
  · exact absurd (h.symm.trans he) (by simp)
  · exact absurd (h.symm.trans he) (by simp)
  · exact absurd (h.symm.trans he) (by simp)
  · exact absurd (h.symm.trans he) (by simp)
  · exact absurd (h.symm.trans he) (by simp)
  · exact absurd (h.symm.trans he) (by simp)
  · exact Target.relative.inj (h.symm.trans he)

end TermShell.Path
