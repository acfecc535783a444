import TermShell.Proofs.Config
import TermShell.Proofs.Rgb
import TermShell.Proofs.Tree.Overwrite
import TermShell.Settings

/-!
# The colours of a file

The colours are what the file of the colours says, line by line: a line `Offers` a colour under a
name if the name stands in front of its first colon, and a colour behind it. Lines that offer
nothing under the name are passed over, also if they have the name and something else than a
colour, so that the first offer counts (`FirstOffer`, `color_eq_ok_some_iff`).
-/

namespace TermShell

namespace Settings

/-! ## What a line offers -/

/-- The line offers a colour of these six digits under the name. -/
def Offers (line name : String) (digits : List Char) : Prop :=
  ∃ key value, Config.Divided line key value ∧ Text.trim key = name ∧
    Rgb.Shows (Text.trim value) digits

/-- The first offer that the lines make under the name is a colour of these six digits. -/
def FirstOffer (lines : List String) (name : String) (digits : List Char) : Prop :=
  ∃ before line after, lines = before ++ line :: after ∧ Offers line name digits ∧
    ∀ earlier ∈ before, ∀ ds, ¬ Offers earlier name ds

/-- The colour that a setting gives to the name. -/
def given? (name : String) (kv : String × String) : Option Rgb :=
  if kv.1 = name then Rgb.ofHex? kv.2 else none

/-- The colour that a line offers under the name. -/
def offer? (name line : String) : Option Rgb := (Config.setting? line).bind (given? name)

variable {name line : String} {lines : List String}

/-- **A line offers a colour exactly if it has one under the name.** A name is not empty. -/
theorem offer?_eq_some_iff (hname : name ≠ "") {c : Rgb} :
    offer? name line = some c ↔
      ∃ digits, Offers line name digits ∧ c.hex = String.ofList (digits.map Char.toLower) := by
  unfold offer? given?
  rw [Option.bind_eq_some_iff]
  constructor
  · rintro ⟨kv, hkv, hc⟩
    obtain ⟨key, value, hdivided, _, rfl⟩ := Config.setting?_eq_some_iff.mp hkv
    obtain ⟨hkey, hc⟩ := Option.ite_none_right_eq_some.mp hc
    obtain ⟨digits, hshows, hhex⟩ := Rgb.ofHex?_eq_some_iff_shows.mp hc
    exact ⟨digits, ⟨key, value, hdivided, hkey, hshows⟩, hhex⟩
  · rintro ⟨digits, ⟨key, value, hdivided, hkey, hshows⟩, hhex⟩
    refine ⟨(Text.trim key, Text.trim value), ?_, ?_⟩
    · exact Config.setting?_eq_some_iff.mpr ⟨key, value, hdivided, hkey ▸ hname, rfl⟩
    · exact Option.ite_none_right_eq_some.mpr
        ⟨hkey, Rgb.ofHex?_eq_some_iff_shows.mpr ⟨digits, hshows, hhex⟩⟩

theorem offer?_eq_none_iff (hname : name ≠ "") :
    offer? name line = none ↔ ∀ digits, ¬ Offers line name digits := by
  constructor
  · intro h digits hoffers
    obtain ⟨key, value, _, _, hshows⟩ := id hoffers
    obtain ⟨c, hc⟩ := hshows.exists_color
    have hsome := (offer?_eq_some_iff hname).mpr ⟨digits, hoffers, hc⟩
    exact absurd (h.symm.trans hsome) (by simp)
  · intro h
    rw [Option.eq_none_iff_forall_ne_some]
    intro c hc
    obtain ⟨digits, hoffers, _⟩ := (offer?_eq_some_iff hname).mp hc
    exact h digits hoffers

theorem findSome?_offer?_eq_some_iff (hname : name ≠ "") {c : Rgb} :
    lines.findSome? (offer? name) = some c ↔
      ∃ digits, FirstOffer lines name digits ∧
        c.hex = String.ofList (digits.map Char.toLower) := by
  rw [List.findSome?_eq_some_iff]
  simp only [offer?_eq_some_iff hname, offer?_eq_none_iff hname]
  constructor
  · rintro ⟨before, line, after, hlines, ⟨digits, hoffers, hhex⟩, hbefore⟩
    exact ⟨digits, ⟨before, line, after, hlines, hoffers, hbefore⟩, hhex⟩
  · rintro ⟨digits, ⟨before, line, after, hlines, hoffers, hbefore⟩, hhex⟩
    exact ⟨before, line, after, hlines, ⟨digits, hoffers, hhex⟩, hbefore⟩

theorem findSome?_offer?_eq_none_iff (hname : name ≠ "") :
    lines.findSome? (offer? name) = none ↔ ∀ line ∈ lines, ∀ digits, ¬ Offers line name digits := by
  simp only [List.findSome?_eq_none_iff, offer?_eq_none_iff hname]

/-! ## The colours of a volume -/

/-- Settings that are no colours do not come between a name and its colour. -/
theorem named?_colorsOf (name : String) (config : Config) :
    named? name (colorsOf config) = config.settings.findSome? (given? name) := by
  unfold named? colorsOf
  induction config.settings with
  | nil => rfl
  | cons kv rest ih =>
    cases hcolor : Rgb.ofHex? kv.2 with
    | none =>
      have hpassed : given? name kv = none := by simp [given?, hcolor]
      simpa [hcolor, List.findSome?_cons, hpassed] using ih
    | some c =>
      by_cases hkey : kv.1 = name
      · simp [hcolor, given?, hkey]
      · simpa [hcolor, List.findSome?_cons, given?, hkey] using ih

theorem load_of_read? {v : Volume} {path text : String} (h : v.tree.read? path = some text) :
    load v path = (Config.parse text).elim (.error (.empty path)) .ok := by
  obtain ⟨file, hfile, rfl⟩ := Option.map_eq_some_iff.mp h
  unfold load
  simp only [hfile]
  cases Config.parse file.text <;> rfl

/-- **The colour of a name is the first that a line offers under it.** -/
theorem color_eq_ok_some_iff {v : Volume} {text : String}
    (htext : v.tree.read? Layout.colorConfigPath = some text) {c : Rgb} :
    color v name = .ok (some c) ↔ (Text.lines text).findSome? (offer? name) = some c := by
  have hlines : (Text.lines text).findSome? (offer? name) =
      ((Text.lines text).filterMap Config.setting?).findSome? (given? name) := by
    rw [← List.head?_filterMap, ← List.head?_filterMap, List.filterMap_filterMap]
    rfl
  rw [color, colors, colorConfig, load_of_read? htext, hlines]
  cases hparse : Config.parse text with
  | none =>
    have hnil : (Text.lines text).filterMap Config.setting? = [] :=
      List.filterMap_eq_nil_iff.mpr fun line hline =>
        Config.setting?_eq_none_iff.mpr (Config.parse_eq_none_iff.mp hparse line hline)
    simp [hnil, Except.map]
  | some config =>
    rw [(Config.parse_eq_some_iff.mp hparse).2, ← named?_colorsOf]
    simp [Except.map]

end Settings

end TermShell
