import Mathlib.Data.List.Sort
import TermShell.Proofs.Text.Blank

/-!
# Runs

To cut a text at a class of characters is to cut it at each of these characters and to leave out
the pieces that are empty. Here the outcome is described without any cutting. A *run* is a stretch
of the text that is not empty, holds no separator and is part of no longer stretch of this kind.
The cutting gives the runs of the text, each of them once and in the order in which they stand, and
nothing else (`areRuns_iff`).

A stretch without separators does not reach across a separator, so that the runs of a text with a
separator in it are those in front of it and those behind it. Both the runs and the cutting obey
this rule, and a text without separators is one run or empty. The components of paths and the words
of lines are told apart by the same rule, at slashes and at blanks.
-/

namespace TermShell.Text

/-- There is something from the place `i` up to the place `j`, and no separator. -/
structure Unbroken (sep : Char → Bool) (s : List Char) (i j : Nat) : Prop where
  lt : i < j
  le : j ≤ s.length
  free : ∀ k c, i ≤ k → k < j → s[k]? = some c → sep c = false

/-- An unbroken stretch that is part of no longer one. -/
structure IsRun (sep : Char → Bool) (s : List Char) (i j : Nat) : Prop where
  unbroken : Unbroken sep s i j
  maximal : ∀ i' j', i' ≤ i → j ≤ j' → Unbroken sep s i' j' → i' = i ∧ j' = j

/-- The parts are the runs of the text, in the order in which they stand in it. -/
def AreRuns (sep : Char → Bool) (s : List Char) (parts : List (List Char)) : Prop :=
  ∃ spans : List (Nat × Nat), spans.Pairwise (fun a b => a.1 < b.1) ∧
    (∀ i j, (i, j) ∈ spans ↔ IsRun sep s i j) ∧
    parts = spans.map fun span => s.extract span.1 span.2

variable {sep : Char → Bool} {s front back : List Char} {c : Char} {i j : Nat}

/-! ## Texts without separators -/

theorem unbroken_iff_of_free (h : ∀ c ∈ s, sep c = false) :
    Unbroken sep s i j ↔ i < j ∧ j ≤ s.length :=
  ⟨fun hs => ⟨hs.lt, hs.le⟩, fun hij => ⟨hij.1, hij.2, fun _ c _ _ hc =>
    h c (List.mem_of_getElem? hc)⟩⟩

/-- A text without separators is its only run, unless it is empty. -/
theorem isRun_iff_of_free (h : ∀ c ∈ s, sep c = false) :
    IsRun sep s i j ↔ s ≠ [] ∧ i = 0 ∧ j = s.length := by
  constructor
  · intro hrun
    have hle := hrun.unbroken.le
    have hpos : 0 < s.length := Nat.lt_of_lt_of_le (Nat.zero_lt_of_lt hrun.unbroken.lt) hle
    have hwhole := hrun.maximal 0 s.length (Nat.zero_le i) hle
      ((unbroken_iff_of_free h).mpr ⟨hpos, Nat.le_refl _⟩)
    exact ⟨List.length_pos_iff.mp hpos, hwhole.1.symm, hwhole.2.symm⟩
  · rintro ⟨hne, rfl, rfl⟩
    have hpos := List.length_pos_iff.mpr hne
    refine ⟨(unbroken_iff_of_free h).mpr ⟨hpos, Nat.le_refl _⟩, fun i' j' hi hj hs => ?_⟩
    exact ⟨Nat.le_zero.mp hi, Nat.le_antisymm hs.le hj⟩

theorem runs_of_free (h : ∀ c ∈ s, sep c = false) : runs sep s = if s = [] then [] else [s] := by
  rw [runs, List.splitOnP_eq_singleton h]
  cases s with
  | nil => rfl
  | cons c cs => rfl

theorem areRuns_of_free (h : ∀ c ∈ s, sep c = false) : AreRuns sep s (runs sep s) := by
  rw [runs_of_free h]
  by_cases hs : s = []
  · refine ⟨[], .nil, fun i j => ?_, if_pos hs⟩
    rw [isRun_iff_of_free h]
    simp [hs]
  · refine ⟨[(0, s.length)], List.pairwise_singleton _ _, fun i j => ?_, by simp [hs]⟩
    rw [isRun_iff_of_free h]
    simp [hs]

/-! ## A separator inside -/

/-- What stands behind a separator, by its place in the whole text. -/
theorem getElem?_behind (k : Nat) : (front ++ c :: back)[k + (front.length + 1)]? = back[k]? := by
  rw [List.getElem?_append_right (by omega),
    show k + (front.length + 1) - front.length = k + 1 by omega, List.getElem?_cons_succ]

theorem extract_behind :
    (front ++ c :: back).extract (i + (front.length + 1)) (j + (front.length + 1)) =
      back.extract i j := by
  have hdrop : (front ++ c :: back).drop (i + (front.length + 1)) = back.drop i := by
    rw [List.drop_append, List.drop_of_length_le (by omega), List.nil_append,
      show i + (front.length + 1) - front.length = i + 1 by omega, List.drop_succ_cons]
  rw [List.extract_eq_take_drop, List.extract_eq_take_drop, hdrop, Nat.add_sub_add_right]

theorem Unbroken.extract_append (h : Unbroken sep front i j) (rest : List Char) :
    (front ++ rest).extract i j = front.extract i j := by
  have hlt := h.lt
  have hle := h.le
  rw [List.extract_eq_take_drop, List.extract_eq_take_drop,
    List.drop_append_of_le_length (by omega),
    List.take_append_of_le_length (by rw [List.length_drop]; omega)]

theorem Unbroken.append (h : Unbroken sep front i j) (rest : List Char) :
    Unbroken sep (front ++ rest) i j := by
  have hle := h.le
  refine ⟨h.lt, by rw [List.length_append]; omega, fun k x hi hk hx => h.free k x hi hk ?_⟩
  rwa [List.getElem?_append_left (by omega)] at hx

theorem Unbroken.behind (h : Unbroken sep back i j) (front : List Char) (c : Char) :
    Unbroken sep (front ++ c :: back) (i + (front.length + 1)) (j + (front.length + 1)) := by
  have hlt := h.lt
  have hle := h.le
  refine ⟨by omega, by rw [List.length_append, List.length_cons]; omega, fun k x hi hk hx => ?_⟩
  obtain ⟨m, rfl⟩ : ∃ m, k = m + (front.length + 1) := ⟨k - (front.length + 1), by omega⟩
  exact h.free m x (by omega) (by omega) (by rwa [getElem?_behind] at hx)

/-- **No unbroken stretch reaches across a separator.** -/
theorem Unbroken.cases_append_cons (hc : sep c = true) (h : Unbroken sep (front ++ c :: back) i j) :
    Unbroken sep front i j ∨ ∃ a b, i = a + (front.length + 1) ∧ j = b + (front.length + 1) ∧
      Unbroken sep back a b := by
  have hlt := h.lt
  have hle := h.le
  rw [List.length_append, List.length_cons] at hle
  by_cases hj : j ≤ front.length
  · refine .inl ⟨hlt, hj, fun k x hi hk hx => h.free k x hi hk ?_⟩
    rwa [List.getElem?_append_left (by omega)]
  -- the stretch ends behind the separator, and so it begins there too
  have hi : front.length < i := by
    by_contra hi
    have hfree := h.free front.length c (by omega) (by omega) (by simp)
    exact absurd (hc.symm.trans hfree) (by simp)
  refine .inr ⟨i - (front.length + 1), j - (front.length + 1), by omega, by omega, by omega,
    by omega, fun k x hik hkj hx => ?_⟩
  exact h.free (k + (front.length + 1)) x (by omega) (by omega) (by rwa [getElem?_behind])

/-- **The runs are those in front of a separator and those behind it.** -/
theorem isRun_append_cons_iff (hc : sep c = true) : IsRun sep (front ++ c :: back) i j ↔
    IsRun sep front i j ∨ ∃ a b, i = a + (front.length + 1) ∧ j = b + (front.length + 1) ∧
      IsRun sep back a b := by
  constructor
  · intro h
    rcases h.unbroken.cases_append_cons hc with hs | ⟨a, b, rfl, rfl, hs⟩
    · exact .inl ⟨hs, fun i' j' hi hj hs' => h.maximal i' j' hi hj (hs'.append _)⟩
    · refine .inr ⟨a, b, rfl, rfl, hs, fun a' b' ha hb hs' => ?_⟩
      have hsame := h.maximal _ _ (Nat.add_le_add_right ha _) (Nat.add_le_add_right hb _)
        (hs'.behind front c)
      omega
  -- a stretch that is longer lies on the same side of the separator
  · rintro (h | ⟨a, b, rfl, rfl, h⟩)
    · have hlt := h.unbroken.lt
      have hle := h.unbroken.le
      refine ⟨h.unbroken.append _, fun i' j' hi hj hs' => ?_⟩
      rcases hs'.cases_append_cons hc with hfront | ⟨a', b', rfl, rfl, _⟩
      · exact h.maximal i' j' hi hj hfront
      · omega
    · have hlt := h.unbroken.lt
      refine ⟨h.unbroken.behind front c, fun i' j' hi hj hs' => ?_⟩
      rcases hs'.cases_append_cons hc with hfront | ⟨a', b', rfl, rfl, hback⟩
      · have hle := hfront.le
        omega
      · have hsame := h.maximal a' b' (by omega) (by omega) hback
        omega

/-- A span of the text behind a separator, as a span of the whole text. -/
def moved (front : List Char) (span : Nat × Nat) : Nat × Nat :=
  (span.1 + (front.length + 1), span.2 + (front.length + 1))

theorem AreRuns.append_cons {parts parts' : List (List Char)} (h : AreRuns sep front parts)
    (hc : sep c = true) (h' : AreRuns sep back parts') :
    AreRuns sep (front ++ c :: back) (parts ++ parts') := by
  obtain ⟨spans, hsorted, hmem, rfl⟩ := h
  obtain ⟨spans', hsorted', hmem', rfl⟩ := h'
  refine ⟨spans ++ spans'.map (moved front), List.pairwise_append.mpr ⟨hsorted, ?_, ?_⟩,
    fun i j => ?_, ?_⟩
  · exact List.pairwise_map.mpr (hsorted'.imp fun hlt => Nat.add_lt_add_right hlt _)
  · intro a ha b hb
    obtain ⟨span, _, rfl⟩ := List.mem_map.mp hb
    have hlt := ((hmem a.1 a.2).mp ha).unbroken.lt
    have hle := ((hmem a.1 a.2).mp ha).unbroken.le
    rw [moved]
    omega
  · rw [isRun_append_cons_iff hc, List.mem_append, hmem, List.mem_map]
    refine or_congr_right ⟨?_, ?_⟩
    · rintro ⟨⟨a, b⟩, hspan, he⟩
      obtain ⟨rfl, rfl⟩ := Prod.mk.inj he
      exact ⟨a, b, rfl, rfl, (hmem' a b).mp hspan⟩
    · rintro ⟨a, b, rfl, rfl, hrun⟩
      exact ⟨(a, b), (hmem' a b).mpr hrun, rfl⟩
  · rw [List.map_append, List.map_map]
    refine congrArg₂ (· ++ ·) (List.map_congr_left fun span hspan => ?_)
      (List.map_congr_left fun span _ => extract_behind.symm)
    exact (((hmem span.1 span.2).mp hspan).unbroken.extract_append _).symm

/-! ## The cutting -/

/-- A separator inside cuts a text in two. -/
theorem runs_append_cons (hc : sep c = true) (front back : List Char) :
    runs sep (front ++ c :: back) = runs sep front ++ runs sep back := by
  rw [runs, List.splitOnP_append_cons _ _ hc, List.filter_append, runs, runs]

/-- Separators at the start do not matter. -/
theorem runs_cons (hc : sep c = true) (s : List Char) : runs sep (c :: s) = runs sep s :=
  runs_append_cons hc [] s

theorem runs_dropWhile (sep : Char → Bool) (s : List Char) :
    runs sep (s.dropWhile sep) = runs sep s := by
  induction s with
  | nil => rfl
  | cons c cs ih =>
    by_cases hc : sep c = true
    · rw [List.dropWhile_cons_of_pos hc, ih, runs_cons hc]
    · rw [List.dropWhile_cons_of_neg hc]

/-- Separators at the end do not matter either. -/
theorem runs_dropEndWhile (sep : Char → Bool) (s : List Char) :
    runs sep (dropEndWhile sep s) = runs sep s := by
  rw [dropEndWhile_eq_rdropWhile]
  induction s using List.reverseRecOn with
  | nil => rfl
  | append_singleton s c ih =>
    by_cases hc : sep c = true
    · rw [List.rdropWhile_concat_pos sep s c hc, ih, runs_append_cons hc]
      exact (List.append_nil _).symm
    · rw [List.rdropWhile_concat_neg sep s c hc]

/-- The pieces put together are all that no cut was made at. -/
theorem flatten_runs (sep : Char → Bool) (s : List Char) :
    (runs sep s).flatten = s.filter fun c => !sep c := by
  rw [runs, List.flatten_filter_not_isEmpty]
  induction s with
  | nil => rfl
  | cons c cs ih =>
    rw [List.splitOnP_cons_eq_if_modifyHead]
    cases hc : sep c with
    | true => simpa [hc] using ih
    | false =>
      rw [List.filter_cons_of_pos (by simp [hc]), ← ih]
      cases hsplit : cs.splitOnP sep with
      | nil => exact absurd hsplit (List.splitOnP_ne_nil sep cs)
      | cons piece rest => rfl

theorem areRuns_runs (sep : Char → Bool) (s : List Char) : AreRuns sep s (runs sep s) := by
  by_cases h : ∀ c ∈ s, sep c = false
  · exact areRuns_of_free h
  · -- any separator will do, for what stands on either side of it is shorter
    obtain ⟨c, hmem, hc⟩ : ∃ c ∈ s, sep c = true := by simpa using h
    obtain ⟨front, back, hs⟩ := List.append_of_mem hmem
    rw [hs, runs_append_cons hc]
    exact (areRuns_runs sep front).append_cons hc (areRuns_runs sep back)
termination_by s.length
decreasing_by all_goals (rw [hs, List.length_append, List.length_cons]; omega)

/-- The runs of a text have one order only. -/
theorem AreRuns.unique {parts parts' : List (List Char)} (h : AreRuns sep s parts)
    (h' : AreRuns sep s parts') : parts = parts' := by
  obtain ⟨spans, hsorted, hmem, rfl⟩ := h
  obtain ⟨spans', hsorted', hmem', rfl⟩ := h'
  have hasymm : Std.Antisymm fun a b : Nat × Nat => a.1 < b.1 :=
    ⟨fun _ _ hab hba => absurd hab (Nat.lt_asymm hba)⟩
  have hirrefl : Std.Irrefl fun a b : Nat × Nat => a.1 < b.1 := ⟨fun _ => Nat.lt_irrefl _⟩
  rw [hsorted.eq_of_mem_iff hsorted' fun span =>
    (hmem span.1 span.2).trans (hmem' span.1 span.2).symm]

/-- **Cutting a text gives its runs, and nothing else.** -/
theorem areRuns_iff {parts : List (List Char)} : AreRuns sep s parts ↔ parts = runs sep s :=
  ⟨fun h => h.unique (areRuns_runs sep s), fun h => h ▸ areRuns_runs sep s⟩

/-! ## Words -/

/-- A word is not empty and holds no blank. -/
theorem of_mem_words {s word : String} (h : word ∈ words s) :
    word ≠ "" ∧ ∀ c ∈ word.toList, isBlank c = false := by
  obtain ⟨piece, hpiece, rfl⟩ := List.mem_map.mp h
  have hne : piece ≠ [] := by simpa using (List.mem_filter.mp hpiece).2
  refine ⟨by simpa using hne, fun c hc => ?_⟩
  rw [String.toList_ofList] at hc
  have hkept : c ∈ (runs isBlank s.toList).flatten := List.mem_flatten.mpr ⟨piece, hpiece, hc⟩
  rw [flatten_runs] at hkept
  simpa using (List.mem_filter.mp hkept).2

/-- A blank between two texts keeps their words apart. -/
theorem words_append (a b : String) : words (a ++ " " ++ b) = words a ++ words b := by
  have hchars : (a ++ " " ++ b).toList = a.toList ++ ' ' :: b.toList := by simp
  have hblank : isBlank ' ' = true := by decide
  rw [words, hchars, runs_append_cons hblank, List.map_append, words, words]

/-- What holds no blank is one word. -/
theorem words_eq_singleton {a : String} (ha : a ≠ "" ∧ ∀ c ∈ a.toList, isBlank c = false) :
    words a = [a] := by
  have hchars : a.toList ≠ [] := fun hnil => ha.1 (String.toList_eq_nil_iff.mp hnil)
  rw [words, runs_of_free ha.2, if_neg hchars, List.map_singleton, String.ofList_toList]

end TermShell.Text
