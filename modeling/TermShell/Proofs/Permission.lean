import TermShell.Permission

/-!
# Permission sets as texts

A text is read as a permission set exactly if it is one's text form (`parse_eq_ok_iff`), and these
are the texts of six characters each of which is a zero or a one (`exists_parse_iff`). The ones mark
the permissions of the set (`marked_bits`).

The description of a set reads its permissions out, and `Sentence` says how a list is read out.
-/

namespace TermShell.PermissionSet

/-! ## Digits -/

/-- The character that says whether something is allowed. -/
def digit (allowed : Bool) : Char := if allowed then '1' else '0'

theorem bit?_eq_some_iff {c : Char} {allowed : Bool} :
    bit? c = some allowed ↔ c = digit allowed := by
  unfold bit? digit
  cases allowed <;> grind

theorem mapM_bit?_eq_some_iff {cs : List Char} {bs : List Bool} :
    cs.mapM bit? = some bs ↔ cs = bs.map digit := by
  induction cs generalizing bs with
  | nil => cases bs <;> simp
  | cons c cs ih =>
    cases bs with
    | nil => simp [Option.bind_eq_some_iff]
    | cons b bs => simp [Option.bind_eq_some_iff, bit?_eq_some_iff, ih]

/-- The text form has a digit for each permission. -/
theorem toList_bits (s : PermissionSet) :
    s.bits.toList = Permission.all.map fun p => digit (s.contains p) :=
  String.toList_ofList

/-! ## Reading -/

/-- **A text is read as the set whose text form it is.** -/
theorem parse_eq_ok_iff {text : String} {s : PermissionSet} :
    parse text = .ok s ↔ text = s.bits := by
  constructor
  · intro h
    unfold parse at h
    split at h
    · rename_i hread
      obtain rfl := Except.ok.inj h
      rw [← String.toList_inj, toList_bits]
      exact mapM_bit?_eq_some_iff.mp hread
    · exact absurd h (by simp)
  · rintro rfl
    exact parse_bits s

/-- The text is six digits. -/
def IsBits (text : String) : Prop :=
  text.toList.length = 6 ∧ ∀ c ∈ text.toList, c = '0' ∨ c = '1'

instance : DecidablePred IsBits := fun text =>
  decidable_of_iff (text.toList.length = 6 ∧ text.toList.all (fun c => c = '0' ∨ c = '1') = true)
    (by simp [IsBits, List.all_eq_true])

/-- **Six digits are the text form of a set**, and nothing else is. -/
theorem isBits_iff {text : String} : IsBits text ↔ ∃ s : PermissionSet, text = s.bits := by
  constructor
  · intro h
    obtain ⟨hlength, hdigits⟩ := h
    have hread : text.toList = (text.toList.map (· == '1')).map digit := by
      rw [List.map_map]
      refine (List.map_id _).symm.trans (List.map_congr_left fun c hc => ?_)
      rcases hdigits c hc with rfl | rfl <;> rfl
    -- six characters are six answers
    have hcount : (text.toList.map (· == '1')).length = 6 := by rw [List.length_map, hlength]
    match text.toList.map (· == '1'), hcount, hread with
    | [ax, aw, ar, ux, uw, ur], _, hread =>
      refine ⟨⟨⟨ax, aw, ar⟩, ⟨ux, uw, ur⟩⟩, ?_⟩
      rw [← String.toList_inj, hread, toList_bits]
      rfl
  · rintro ⟨s, rfl⟩
    rw [IsBits, toList_bits, List.length_map]
    refine ⟨rfl, fun c hc => ?_⟩
    obtain ⟨p, _, rfl⟩ := List.mem_map.mp hc
    cases s.contains p
    · exact .inl rfl
    · exact .inr rfl

theorem exists_parse_iff {text : String} : (∃ s, parse text = .ok s) ↔ IsBits text := by
  simp only [parse_eq_ok_iff, isBits_iff]

/-! ## What the ones mark -/

/-- The permissions at whose places a text has a one, in the order of the places. -/
def marked (text : String) : List Permission :=
  ((Permission.all.zip text.toList).filter fun place => place.2 = '1').map Prod.fst

theorem mem_toList {s : PermissionSet} {p : Permission} : p ∈ s.toList ↔ s.contains p = true := by
  simp [toList, Permission.mem_all]

/-- **The ones of the text form mark the permissions of the set.** -/
theorem marked_bits (s : PermissionSet) : marked s.bits = s.toList := by
  have hone : ∀ p, (digit (s.contains p) = '1') = (s.contains p = true) := by
    intro p
    cases s.contains p <;> decide
  have hplaces : Permission.all.zip s.bits.toList =
      Permission.all.map fun p => (p, digit (s.contains p)) := by
    rw [toList_bits]
    rfl
  simp [marked, toList, hplaces, List.filter_map, Function.comp_def, hone]

/-! ## Reading out -/

/-- How a list of phrases is read out. -/
inductive Sentence : List String → String → Prop where
  | none : Sentence [] "\"none\""
  | one (phrase : String) : Sentence [phrase] phrase
  | two (first second : String) : Sentence [first, second] (first ++ " and " ++ second)
  | more (phrases : List String) (last : String) : 2 ≤ phrases.length →
      Sentence (phrases ++ [last]) (String.intercalate ", " phrases ++ ", and " ++ last)

theorem enumerate_concat : ∀ {phrases : List String}, 2 ≤ phrases.length → ∀ last : String,
    enumerate (phrases ++ [last]) = String.intercalate ", " phrases ++ ", and " ++ last
  | first :: second :: middle, _, last => by
    have hmany : enumerate (first :: second :: middle ++ [last]) =
        String.intercalate ", " (first :: second :: middle ++ [last]).dropLast ++ ", and " ++
          (first :: second :: middle ++ [last]).getLastD "" := by
      cases middle <;> rfl
    rw [hmany, List.dropLast_concat, List.getLastD_concat]

/-- **A list is read out in one way**, and that is how the permissions of a set are. -/
theorem sentence_iff {phrases : List String} {text : String} :
    Sentence phrases text ↔ text = enumerate phrases := by
  constructor
  · intro h
    cases h with
    | none => rfl
    | one => rfl
    | two => rfl
    | more front last hlength => exact (enumerate_concat hlength last).symm
  · rintro rfl
    match phrases with
    | [] => exact .none
    | [only] => exact .one only
    | [first, second] => exact .two first second
    | first :: second :: third :: rest =>
      have hsplit := List.dropLast_concat_getLast (List.cons_ne_nil third rest)
      have hlength : 2 ≤ (first :: second :: (third :: rest).dropLast).length := by simp
      rw [← hsplit]
      have henumerate := enumerate_concat hlength ((third :: rest).getLast (by simp))
      rw [List.cons_append, List.cons_append] at henumerate
      rw [henumerate]
      exact .more _ _ hlength

end TermShell.PermissionSet
