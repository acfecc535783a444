import TermShell.Config
import TermShell.Proofs.Text.Blank
import TermShell.Proofs.Text.Lines

/-!
# Configurations that are read back as they were written

A configuration is written without quoting: one setting to a line, key and value as they are. So a
setting can only be read back if it is `Plain`, that is, if key and value are trimmed and stay on
their line, and the key is there and does not hold the colon that ends it. The value may hold
colons, for only the first one of a line counts, and carriage returns, for they end a line only
together with a line feed, and a trimmed value has none at its end.

Reading gives plain settings only, whatever the text. Hence what has been read once is read back for
ever, and the configurations that are read back are those that have settings, all of them plain
(`read_back_iff`). When there is nothing to be read in a text is said by `HoldsSetting`, line by
line.
-/

namespace TermShell.Config

/-! ## One line -/

/-- The line is divided into these two parts by its first colon. -/
def Divided (line key value : String) : Prop := line = key ++ ":" ++ value ∧ ':' ∉ key.toList

/-- The line has a colon, and something else than blanks in front of the first one. -/
def HoldsSetting (line : String) : Prop :=
  ∃ key value, Divided line key value ∧ ∃ c ∈ key.toList, Text.isBlank c = false

theorem cut?_eq_some_iff {line key value : String} :
    Text.cut? ":" line = some (key, value) ↔ Divided line key value := by
  have hcolon : ":".toList = [':'] := by decide
  have hfirst : [':'] <:+: key.toList ++ [':'].dropLast ↔ ':' ∈ key.toList := by
    simp [List.singleton_infix_iff]
  rw [Text.cut?, hcolon, Divided, ← String.toList_inj, String.toList_append, String.toList_append,
    hcolon, List.append_assoc, ← hfirst]
  constructor
  · intro h
    obtain ⟨⟨before, after⟩, hchars, he⟩ := Option.map_eq_some_iff.mp h
    obtain ⟨rfl, rfl⟩ := Prod.mk.inj he
    simp only [String.toList_ofList]
    exact Text.of_cutChars? (by simp) hchars
  · rintro ⟨hline, hnot⟩
    rw [hline, Text.cutChars?_append (by simp) _ hnot]
    simp

theorem trim_ne_empty_iff {s : String} :
    Text.trim s ≠ "" ↔ ∃ c ∈ s.toList, Text.isBlank c = false := by
  simp [Text.trim_eq_empty_iff]

/-- **What a line sets**: the trimmed key to the trimmed value. -/
theorem setting?_eq_some_iff {line : String} {kv : String × String} :
    setting? line = some kv ↔
      ∃ key value, Divided line key value ∧ Text.trim key ≠ "" ∧
        kv = (Text.trim key, Text.trim value) := by
  unfold setting?
  constructor
  · intro h
    obtain ⟨⟨key, value⟩, hcut, hkv⟩ := Option.bind_eq_some_iff.mp h
    refine ⟨key, value, cut?_eq_some_iff.mp hcut, ?_⟩
    dsimp only at hkv
    split at hkv
    · exact absurd hkv (by simp)
    · rename_i hkey
      exact ⟨by simpa using hkey, (Option.some.inj hkv).symm⟩
  · rintro ⟨key, value, hdivided, hkey, rfl⟩
    have hnonempty : (Text.trim key).isEmpty = false := by simpa using hkey
    rw [cut?_eq_some_iff.mpr hdivided, Option.bind_some]
    simp [hnonempty]

theorem setting?_eq_none_iff {line : String} : setting? line = none ↔ ¬ HoldsSetting line := by
  rw [Option.eq_none_iff_forall_ne_some]
  constructor
  · rintro h ⟨key, value, hdivided, hc⟩
    exact h _ (setting?_eq_some_iff.mpr ⟨key, value, hdivided, trim_ne_empty_iff.mpr hc, rfl⟩)
  · intro h kv hkv
    obtain ⟨key, value, hdivided, hkey, _⟩ := setting?_eq_some_iff.mp hkv
    exact h ⟨key, value, hdivided, trim_ne_empty_iff.mp hkey⟩

/-! ## One setting -/

/-- Nothing in the setting is taken for something else when it is read. -/
structure Plain (kv : String × String) : Prop where
  key_ne_empty : kv.1 ≠ ""
  key_trimmed : Text.trim kv.1 = kv.1
  key_undivided : ':' ∉ kv.1.toList
  key_on_line : '\n' ∉ kv.1.toList
  value_trimmed : Text.trim kv.2 = kv.2
  value_on_line : '\n' ∉ kv.2.toList

/-- The line of a setting. -/
def lineOf (kv : String × String) : String := kv.1 ++ ":" ++ kv.2

theorem render_eq (c : Config) : c.render = String.intercalate "\n" (c.settings.map lineOf) := rfl

/-- **What a line sets is plain.** -/
theorem plain_of_setting? {line : String} {kv : String × String} (h : setting? line = some kv)
    (hline : '\n' ∉ line.toList) : Plain kv := by
  obtain ⟨key, value, ⟨rfl, hcolon⟩, hkey, rfl⟩ := setting?_eq_some_iff.mp h
  have hparts : '\n' ∉ key.toList ∧ '\n' ∉ value.toList := by simpa using hline
  exact {
    key_ne_empty := hkey
    key_trimmed := Text.trim_trim key
    key_undivided := fun hc => hcolon (Text.mem_of_mem_trim hc)
    key_on_line := fun hc => hparts.1 (Text.mem_of_mem_trim hc)
    value_trimmed := Text.trim_trim value
    value_on_line := fun hc => hparts.2 (Text.mem_of_mem_trim hc) }

variable {kv : String × String}

theorem Plain.setting?_lineOf (h : Plain kv) : setting? (lineOf kv) = some kv := by
  refine setting?_eq_some_iff.mpr ⟨kv.1, kv.2, ⟨rfl, h.key_undivided⟩, ?_, ?_⟩
  · rw [h.key_trimmed]
    exact h.key_ne_empty
  · rw [h.key_trimmed, h.value_trimmed]

/-- The line ends with the colon or with the value, so not with a carriage return. -/
theorem Plain.getLast?_lineOf (h : Plain kv) : (lineOf kv).toList.getLast? ≠ some '\r' := by
  have htrimmed : Text.trimChars kv.2.toList = kv.2.toList := by
    have hvalue := congrArg String.toList h.value_trimmed
    rwa [Text.trim, String.toList_ofList] at hvalue
  by_cases hempty : kv.2.toList = []
  · simp [lineOf, hempty]
  · have hlast := Text.isBlank_getLast htrimmed hempty
    intro hreturn
    have hsame : kv.2.toList.getLast hempty = '\r' := by
      simpa [lineOf, List.getLast?_cons, List.getLast?_eq_some_getLast hempty] using hreturn
    rw [hsame] at hlast
    exact absurd hlast (by decide)

theorem Plain.newline_not_mem_lineOf (h : Plain kv) : '\n' ∉ (lineOf kv).toList := by
  simp [lineOf, h.key_on_line, h.value_on_line]

/-- **Lines of plain settings are read from the text that holds them.** -/
theorem lines_render {c : Config} (h : ∀ kv ∈ c.settings, Plain kv) :
    Text.lines c.render = c.settings.map lineOf := by
  rw [render_eq]
  refine Text.lines_intercalate_newline (List.forall_mem_map.mpr fun kv hkv => ?_)
  exact ⟨by simp [lineOf], (h kv hkv).getLast?_lineOf, (h kv hkv).newline_not_mem_lineOf⟩

/-! ## Texts -/

theorem parse_eq_some_iff {text : String} {c : Config} :
    parse text = some c ↔
      c.settings ≠ [] ∧ (Text.lines text).filterMap setting? = c.settings := by
  unfold parse
  split
  · rename_i hnil
    simp [hnil, eq_comm]
  · rename_i hne
    constructor
    · intro h
      obtain rfl := Option.some.inj h
      exact ⟨hne, rfl⟩
    · rintro ⟨_, hc⟩
      rw [hc]

theorem parse_eq_none_iff {text : String} :
    parse text = none ↔ ∀ line ∈ Text.lines text, ¬ HoldsSetting line := by
  have hnone : parse text = none ↔ (Text.lines text).filterMap setting? = [] := by
    unfold parse
    split
    · rename_i hnil
      simp [hnil]
    · rename_i hne
      simpa using hne
  simp only [hnone, List.filterMap_eq_nil_iff, setting?_eq_none_iff]

/-- **Reading gives plain settings**, whatever the text. -/
theorem plain_of_parse {text : String} {c : Config} (h : parse text = some c) :
    ∀ kv ∈ c.settings, Plain kv := by
  intro kv hkv
  rw [← (parse_eq_some_iff.mp h).2] at hkv
  obtain ⟨line, hline, hsetting⟩ := List.mem_filterMap.mp hkv
  exact plain_of_setting? hsetting (Text.newline_not_mem_of_mem_lines hline)

theorem parse_render {c : Config} (hne : c.settings ≠ []) (h : ∀ kv ∈ c.settings, Plain kv) :
    parse c.render = some c := by
  have hread : ∀ kv ∈ c.settings, (setting? ∘ lineOf) kv = some kv := fun kv hkv =>
    (h kv hkv).setting?_lineOf
  refine parse_eq_some_iff.mpr ⟨hne, ?_⟩
  rw [lines_render h, List.filterMap_map, List.filterMap_congr hread, List.filterMap_some]

/--
**A configuration is read back as it was written if and only if it has settings and they are
plain.**

A text is no configuration if and only if none of its lines has something else than blanks in front
of its first colon. What is read from any other text has settings, all of them plain, so it is
written and read again without change.
-/
theorem read_back_iff :
    (∀ c : Config, parse c.render = some c ↔ c.settings ≠ [] ∧ ∀ kv ∈ c.settings, Plain kv) ∧
      ∀ text : String,
        (parse text = none ↔ ∀ line ∈ Text.lines text, ¬ HoldsSetting line) ∧
          ∀ c, parse text = some c →
            c.settings ≠ [] ∧ (∀ kv ∈ c.settings, Plain kv) ∧ parse c.render = some c := by
  have hread : ∀ text c, parse text = some c →
      c.settings ≠ [] ∧ ∀ kv ∈ c.settings, Plain kv := fun text c h =>
    ⟨(parse_eq_some_iff.mp h).1, plain_of_parse h⟩
  constructor
  · exact fun c => ⟨hread c.render c, fun ⟨hne, hplain⟩ => parse_render hne hplain⟩
  · refine fun text => ⟨parse_eq_none_iff, fun c h => ?_⟩
    obtain ⟨hne, hplain⟩ := hread text c h
    exact ⟨hne, hplain, parse_render hne hplain⟩

/-- A value may hold colons, and it may be empty; a key may come twice. -/
theorem read_back_iff_of_description :
    let text := " ipv6 :\tfe02::29aa \r\n:orphan\nno colon\nipv6:"
    let c : Config := ⟨[("ipv6", "fe02::29aa"), ("ipv6", "")]⟩
    parse text = some c ∧ c.settings ≠ [] ∧ (∀ kv ∈ c.settings, Plain kv) ∧
      parse c.render = some c := by
  intro text c
  have hparse : parse text = some c := by decide +kernel
  exact ⟨hparse, (read_back_iff.2 text).2 c hparse⟩

end TermShell.Config
