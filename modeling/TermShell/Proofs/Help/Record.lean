import TermShell.Help.Record
import TermShell.Proofs.Text.Blank
import TermShell.Proofs.Text.Split

/-!
# Records that are read back as they were written

Nothing is escaped in a written record, so a heading or body that holds one of the separators is
cut in the wrong place. `Plain` records hold none. There is one thing more to it: a heading that
ends in the first two characters of `:=:` is not cut at its end but before, because with the colon
that follows it makes an earlier separator.

The brackets are what keeps records apart. No separator reaches across one, and neither does it
across the characters of `:=:`, so where a separator occurs in the whole it occurs in a heading
or in a body. Reading gives plain records only, whatever the text; hence a list is read back if
and only if its records are plain, and what has been read once is read back for ever.
-/

namespace TermShell.HelpRecord

/-- The record holds nothing that is taken for a separator. -/
structure Plain (r : HelpRecord) : Prop where
  heading_whole : ¬ recordSeparator.toList <:+: r.heading.toList
  body_whole : ¬ recordSeparator.toList <:+: r.body.toList
  heading_unseparated : ¬ fieldSeparator.toList <:+: r.heading.toList
  /-- The heading does not run into the separator behind it. -/
  heading_unmet : ¬ ":=".toList <:+ r.heading.toList

instance : DecidablePred Plain := fun r =>
  decidable_of_iff
    (¬ recordSeparator.toList <:+: r.heading.toList ∧ ¬ recordSeparator.toList <:+: r.body.toList ∧
      ¬ fieldSeparator.toList <:+: r.heading.toList ∧ ¬ ":=".toList <:+ r.heading.toList)
    ⟨fun ⟨h₁, h₂, h₃, h₄⟩ => ⟨h₁, h₂, h₃, h₄⟩, fun ⟨h₁, h₂, h₃, h₄⟩ => ⟨h₁, h₂, h₃, h₄⟩⟩

theorem toList_fieldSeparator : fieldSeparator.toList = [':', '=', ':'] := by decide

theorem recordSeparator_ne_nil : recordSeparator.toList ≠ [] := by decide

/-! ## One record -/

/-- A heading in front of the separator starts one if it holds one, or if it ends as one begins. -/
theorem fieldSeparator_infix_iff {heading : List Char} :
    fieldSeparator.toList <:+: heading ++ fieldSeparator.toList.dropLast ↔
      fieldSeparator.toList <:+: heading ∨ ":=".toList <:+ heading := by
  have hdrop : heading ++ [':', '=', ':'].dropLast = heading ++ [':'] ++ ['='] := by simp
  -- an occurrence that is not in the heading would have to end in one of the two characters
  have hequals : ¬ [':', '=', ':'] <:+ heading ++ [':'] ++ ['='] := by
    rw [List.suffix_concat_iff]
    rintro (h | ⟨front, h, _⟩)
    · simp at h
    · exact absurd (congrArg List.getLast? h) (by simp)
  have hcolon : [':', '=', ':'] <:+ heading ++ [':'] ↔ ":=".toList <:+ heading := by
    have h : [':', '='] ++ [':'] <:+ heading ++ [':'] ↔ [':', '='] <:+ heading ∧ [':'] = [':'] :=
      List.suffix_append_inj_of_length_eq rfl
    simpa using h
  rw [toList_fieldSeparator, hdrop, List.infix_concat_iff, List.infix_concat_iff, hcolon]
  simp only [hequals, false_or]
  exact or_comm

/-- What stands between the brackets of a written record. -/
def inner (r : HelpRecord) : List Char :=
  r.heading.toList ++ (fieldSeparator.toList ++ r.body.toList)

theorem toList_encode (r : HelpRecord) : r.encode.toList = '[' :: (r.inner ++ [']']) := by
  simp [encode, inner]

theorem unbracket?_encode (r : HelpRecord) :
    unbracket? (Text.trim r.encode).toList = some r.inner := by
  have htrim : (Text.trim r.encode).toList = '[' :: (r.inner ++ [']']) := by
    rw [Text.trim, String.toList_ofList, toList_encode]
    exact Text.trimChars_eq_self (by decide) (by decide)
  simp [htrim, unbracket?]

/-- **A plain record is read back.** -/
theorem decode?_encode {r : HelpRecord} (h : r.Plain) : decode? r.encode = some r := by
  have hnot : ¬ fieldSeparator.toList <:+: r.heading.toList ++ fieldSeparator.toList.dropLast :=
    fun hin => (fieldSeparator_infix_iff.mp hin).elim h.heading_unseparated h.heading_unmet
  have hcut := Text.cutChars?_append (by decide) r.body.toList hnot
  have hcut' : Text.cut? fieldSeparator (String.ofList r.inner) = some (r.heading, r.body) := by
    rw [Text.cut?, String.toList_ofList, inner, hcut]
    simp
  rw [decode?, unbracket?_encode, Option.bind_some, hcut']
  rfl

theorem infix_of_unbracket? {s inner : List Char} (h : unbracket? s = some inner) :
    inner <:+: s := by
  unfold unbracket? at h
  split at h
  · rename_i rest
    split at h
    · obtain rfl := Option.some.inj h
      exact List.infix_cons (List.dropLast_prefix rest).isInfix
    · exact absurd h (by simp)
  · exact absurd h (by simp)

/-- **A record that has been read is plain**, unless the text it is read from holds a separator of
records. -/
theorem plain_of_decode? {text : String} {r : HelpRecord} (h : decode? text = some r)
    (hwhole : ¬ recordSeparator.toList <:+: text.toList) : r.Plain := by
  obtain ⟨inner, hinner, hr⟩ := Option.bind_eq_some_iff.mp h
  obtain ⟨_, hcut, rfl⟩ := Option.map_eq_some_iff.mp hr
  obtain ⟨⟨heading, body⟩, hchars, rfl⟩ := Option.map_eq_some_iff.mp hcut
  rw [String.toList_ofList] at hchars
  obtain ⟨rfl, hnot⟩ := Text.of_cutChars? (by decide) hchars
  -- heading and body are pieces of the text, so they hold no more than it does
  have hpiece : heading ++ (fieldSeparator.toList ++ body) <:+: text.toList := by
    refine (infix_of_unbracket? hinner).trans ?_
    rw [Text.trim, String.toList_ofList]
    exact Text.trimChars_infix text.toList
  have hheading : heading <:+: text.toList := List.infix_append_left.trans hpiece
  have hbody : body <:+: text.toList :=
    List.infix_append_right.trans (List.infix_append_right.trans hpiece)
  rw [fieldSeparator_infix_iff, not_or] at hnot
  constructor
  · intro hin
    rw [String.toList_ofList] at hin
    exact hwhole (hin.trans hheading)
  · intro hin
    rw [String.toList_ofList] at hin
    exact hwhole (hin.trans hbody)
  · simpa using hnot.1
  · simpa using hnot.2

/-! ## Lists of records -/

/-- A plain record does not hold the separator of records: it cannot reach across a bracket or
across the characters between heading and body. -/
theorem Plain.not_infix {r : HelpRecord} (h : r.Plain) :
    ¬ recordSeparator.toList <:+: '[' :: r.inner := by
  have hguard : ∀ g ∈ ['[', ':', '='], g ∉ recordSeparator.toList := by simp [recordSeparator]
  have hne : ¬ recordSeparator.toList <:+: [] := by decide
  have hinner : '[' :: r.inner =
      [] ++ '[' :: (r.heading.toList ++ ':' :: ([] ++ '=' :: ([] ++ ':' :: r.body.toList))) := by
    simp [inner, toList_fieldSeparator]
  rw [hinner, Text.infix_guard_iff (hguard '[' (by decide)),
    Text.infix_guard_iff (hguard ':' (by decide)), Text.infix_guard_iff (hguard '=' (by decide)),
    Text.infix_guard_iff (hguard ':' (by decide))]
  simp [hne, h.heading_whole, h.body_whole]

theorem Plain.splitOnChars_append {r : HelpRecord} (h : r.Plain) (rest : List Char) :
    Text.splitOnChars recordSeparator.toList 0 (r.encode.toList ++ rest) =
      (Text.splitOnChars recordSeparator.toList 0 rest).modifyHead (r.encode.toList ++ ·) := by
  -- the closing bracket keeps what follows apart
  have hcut := Text.splitOnChars_guard (by decide : ']' ∉ recordSeparator.toList)
    recordSeparator_ne_nil h.not_infix rest
  simpa [toList_encode] using hcut

/-- **The parts of a list of plain records are the records.** -/
theorem splitOn_encodeAll {rs : List HelpRecord} (hne : rs ≠ []) (h : ∀ r ∈ rs, r.Plain) :
    Text.splitOn recordSeparator (encodeAll rs) = rs.map encode := by
  have hparts : Text.splitOnChars recordSeparator.toList 0 (encodeAll rs).toList =
      rs.map fun r => r.encode.toList := by
    induction rs with
    | nil => exact absurd rfl hne
    | cons r rest ih =>
      have hr := (h r List.mem_cons_self).splitOnChars_append
      -- every record but the last one is followed by a separator
      cases rest with
      | nil =>
        have hend := hr []
        rw [List.append_nil, Text.splitOnChars] at hend
        rw [encodeAll, List.map_singleton, String.intercalate_singleton, hend]
        simp
      | cons next more =>
        have hmore := ih (by simp) fun q hq => h q (List.mem_cons_of_mem _ hq)
        have hall : (encodeAll (r :: next :: more)).toList =
            r.encode.toList ++ (recordSeparator.toList ++ (encodeAll (next :: more)).toList) := by
          simp [encodeAll]
        rw [hall, hr, Text.splitOnChars_append recordSeparator_ne_nil, hmore]
        simp
  simp [Text.splitOn, hparts, Function.comp_def]

theorem decodeAll_encodeAll {rs : List HelpRecord} (h : ∀ r ∈ rs, r.Plain) :
    decodeAll (encodeAll rs) = rs := by
  by_cases hne : rs = []
  · -- the empty text has one part, which is no record
    subst hne
    decide
  · have hread : ∀ r ∈ rs, (decode? ∘ encode) r = some r := by
      intro r hr
      rw [Function.comp_apply, decode?_encode (h r hr)]
    rw [decodeAll, splitOn_encodeAll hne h, List.filterMap_map, List.filterMap_congr hread,
      List.filterMap_some]

/-- **Reading gives plain records**, whatever the text. -/
theorem plain_of_mem_decodeAll {text : String} {r : HelpRecord} (h : r ∈ decodeAll text) :
    r.Plain := by
  obtain ⟨part, hpart, hr⟩ := List.mem_filterMap.mp h
  obtain ⟨chars, hchars, rfl⟩ := List.mem_map.mp hpart
  refine plain_of_decode? hr ?_
  rw [String.toList_ofList]
  exact Text.not_infix_of_mem_splitOnChars recordSeparator_ne_nil hchars

/--
**A list of records is read back as it was written if and only if its records are plain.**

Whatever has been read is therefore written and read again without change.
-/
theorem read_back_iff_plain :
    (∀ rs : List HelpRecord, decodeAll (encodeAll rs) = rs ↔ ∀ r ∈ rs, r.Plain) ∧
      ∀ text : String, decodeAll (encodeAll (decodeAll text)) = decodeAll text := by
  constructor
  · intro rs
    constructor
    · intro hback r hr
      rw [← hback] at hr
      exact plain_of_mem_decodeAll hr
    · exact decodeAll_encodeAll
  · exact fun text => decodeAll_encodeAll fun r hr => plain_of_mem_decodeAll hr

/-- A heading that ends in a colon and an equals sign is cut in front of these two. -/
example : ¬ Plain ⟨"A:=", "1"⟩ ∧ decodeAll (encodeAll [⟨"A:=", "1"⟩]) = [⟨"A", "=:1"⟩] := by
  decide +kernel

end TermShell.HelpRecord
