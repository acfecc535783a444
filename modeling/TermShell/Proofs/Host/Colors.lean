import TermShell.Proofs.Host.Session
import TermShell.Proofs.Interpreter.Lines
import TermShell.Proofs.Settings

/-!
# Choosing a colour

The interpreter hands on the first colour that the file of the colours offers under the name, in
small letters, and the host reads from these letters the colour that the line shows. There is no
third case: where no line offers a colour, the answer says so.
-/

namespace TermShell

/-! ## The line that chooses -/

namespace Interpreter

variable {v : Volume} {text name : String}

theorem answers_color (hname : Solid name)
    (htext : v.tree.read? Layout.colorConfigPath = some text) {c : Rgb}
    (hc : (Text.lines text).findSome? (Settings.offer? name) = some c) :
    Answers v ("color " ++ name) (.color name c.hex) v := by
  refine answers_pair .color "color" (by decide) (by decide) hname fun now => ?_
  show (v, changeColor v ⟨"color", [name]⟩) = _
  have hfirst : (⟨"color", [name]⟩ : CommandLine).first = name := rfl
  rw [changeColor, hfirst, (Settings.color_eq_ok_some_iff htext).mpr hc]

theorem answers_color_without (hname : Solid name)
    (htext : v.tree.read? Layout.colorConfigPath = some text)
    (hnone : (Text.lines text).findSome? (Settings.offer? name) = none) :
    Answers v ("color " ++ name) (.message (quoted name ++ " is not a valid color.")) v := by
  refine answers_pair .color "color" (by decide) (by decide) hname fun now => ?_
  show (v, changeColor v ⟨"color", [name]⟩) = _
  have hfirst : (⟨"color", [name]⟩ : CommandLine).first = name := rfl
  rw [changeColor, hfirst]
  split
  · rename_i c hc
    have hsome := (Settings.color_eq_ok_some_iff htext).mp hc
    exact absurd (hnone.symm.trans hsome) (by simp)
  · rfl

end Interpreter

namespace Host

open Interpreter Settings

/-- A line that comes to a colour is done with when the colour is taken. -/
theorem step_of_color {h : Host} {v : Volume} {line name : String} {c : Rgb}
    (he : execute h.now h.volume line = (v, .color name c.hex)) (scripted : Bool)
    (readings : List Reading) :
    h.step line scripted readings =
      ⟨{ h with volume := v, steps := h.steps + 1, color := some (name, c) }, readings, none⟩ := by
  unfold step enter
  rw [he]
  simp only [present, takeColor, parseColor, Rgb.ofHex?_hex]

/--
**The chosen colour is the first that the file of the colours offers under the name.**

Let the file hold any text, and let the name be a word. The line `color name` comes to a colour if
and only if a line of the text offers one. It is then the colour of the first such line, by its six
digits in small letters; the host reads the same colour from these as from the digits of the text,
and takes it. If no line offers a colour, the answer says so. Either way nothing else changes.
-/
theorem color_is_first_offer {h : Host} {text name : String} (hname : Solid name)
    (htext : h.volume.tree.read? Layout.colorConfigPath = some text) (scripted : Bool)
    (readings : List Reading) :
    ((∃ hex, (execute h.now h.volume ("color " ++ name)).2 = .color name hex) ↔
        ∃ line ∈ Text.lines text, ∃ digits, Offers line name digits) ∧
      (∀ digits, FirstOffer (Text.lines text) name digits →
        ∃ hex c, hex = String.ofList (digits.map Char.toLower) ∧
          execute h.now h.volume ("color " ++ name) = (h.volume, .color name hex) ∧
          Rgb.ofHex? (String.ofList digits) = some c ∧ Rgb.ofHex? hex = some c ∧
          h.step ("color " ++ name) scripted readings =
            ⟨{ h with steps := h.steps + 1, color := some (name, c) }, readings, none⟩) ∧
      ((∀ line ∈ Text.lines text, ∀ digits, ¬ Offers line name digits) →
        execute h.now h.volume ("color " ++ name) =
            (h.volume, .message (quoted name ++ " is not a valid color.")) ∧
          h.step ("color " ++ name) scripted readings =
            ⟨print { h with steps := h.steps + 1 } (quoted name ++ " is not a valid color."),
              readings, none⟩) := by
  have hnone : (Text.lines text).findSome? (offer? name) = none ↔ _ :=
    findSome?_offer?_eq_none_iff hname.1
  refine ⟨?_, fun digits hfirst => ?_, fun hno => ?_⟩
  · cases hc : (Text.lines text).findSome? (offer? name) with
    | none =>
      rw [answers_color_without hname htext hc h.now]
      have hno := hnone.mp hc
      constructor
      · rintro ⟨hex, hhex⟩
        exact absurd hhex (by simp)
      · rintro ⟨line, hline, digits, hoffers⟩
        exact absurd hoffers (hno line hline digits)
    | some c =>
      rw [answers_color hname htext hc h.now]
      obtain ⟨digits, ⟨before, line, after, hlines, hoffers, _⟩, _⟩ :=
        (findSome?_offer?_eq_some_iff hname.1).mp hc
      have hline : line ∈ Text.lines text := by simp [hlines]
      exact ⟨fun _ => ⟨line, hline, digits, hoffers⟩, fun _ => ⟨c.hex, rfl⟩⟩
  · obtain ⟨before, line, after, _, ⟨key, value, _, _, hshows⟩, _⟩ := id hfirst
    obtain ⟨c, hc⟩ := hshows.exists_color
    have hchosen := (findSome?_offer?_eq_some_iff hname.1).mpr ⟨digits, hfirst, hc⟩
    have hexecute := answers_color hname htext hchosen h.now
    have hread := Rgb.ofHex?_eq_some_iff_shows.mpr ⟨digits, hshows.unmarked, hc⟩
    exact ⟨c.hex, c, hc, hexecute, hread, Rgb.ofHex?_hex c,
      step_of_color hexecute scripted readings⟩
  · have hexecute := answers_color_without hname htext (hnone.mpr hno) h.now
    exact ⟨hexecute, step_of_message hexecute scripted readings⟩

/-- A fresh system with another list of colours. -/
def recolored : Host :=
  let h := boot ⟨0, 0⟩ true none
  let text := "red:mauve\r\n red : ##7A1c38\nred:000000"
  { h with volume := (h.volume.write 3 text).toOption.getD h.volume }

/-- A line without a colour, marks in front of the digits, capitals among them, and a second colour
of the same name. -/
theorem color_is_first_offer_of_red :
    let text := "red:mauve\r\n red : ##7A1c38\nred:000000"
    Solid "red" ∧ recolored.volume.tree.read? Layout.colorConfigPath = some text ∧
      FirstOffer (Text.lines text) "red" "7A1c38".toList ∧
      (execute recolored.now recolored.volume "color red").2 = .color "red" "7a1c38" ∧
      (recolored.step "color red" false []).host.color = some ("red", ⟨0x7a, 0x1c, 0x38⟩) := by
  intro text
  have hsolid : Solid "red" := by decide
  have htext : recolored.volume.tree.read? Layout.colorConfigPath = some text := by
    decide +kernel
  have hfirst : FirstOffer (Text.lines text) "red" "7A1c38".toList := by
    refine ⟨["red:mauve"], " red : ##7A1c38", ["red:000000"], by decide +kernel, ?_, ?_⟩
    · have hdigits : "7A1c38".toList.length = 6 ∧ _ :=
        Rgb.exists_hex_iff.mp ⟨⟨0x7a, 0x1c, 0x38⟩, by decide +kernel⟩
      exact ⟨" red ", " ##7A1c38", ⟨by decide, by decide⟩, by decide +kernel, ['#', '#'],
        by decide +kernel, by simp, hdigits⟩
    · intro earlier hearlier
      obtain rfl := List.mem_singleton.mp hearlier
      exact (offer?_eq_none_iff (by decide)).mp (by decide +kernel)
  obtain ⟨_, c, rfl, hexecute, hread, _, hstep⟩ :=
    (color_is_first_offer hsolid htext false []).2.1 _ hfirst
  have hc : some c = some ⟨0x7a, 0x1c, 0x38⟩ := hread.symm.trans (by decide +kernel)
  refine ⟨hsolid, htext, hfirst, ?_, ?_⟩
  · rw [show "color red" = "color " ++ "red" by decide, hexecute]
    decide +kernel
  · rw [show "color red" = "color " ++ "red" by decide, hstep, Option.some.inj hc]

end Host

end TermShell
