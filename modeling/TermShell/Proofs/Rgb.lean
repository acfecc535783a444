import Mathlib.Data.List.TakeWhile
import TermShell.Rgb

/-!
# Colours as texts

A text is read as a colour exactly if it is six hexadecimal digits behind any number of `#`, and it
is then read as the colour whose own six digits are those of the text in small letters
(`ofHex?_eq_some_iff`, `exists_hex_iff`). So nothing but the case of the letters and the marks in
front is lost on reading, and writing a colour and reading it again changes nothing.
-/

namespace TermShell.Rgb

/-! ## Digits -/

/-- The character is a hexadecimal digit, in either case. -/
def IsHexDigit (c : Char) : Prop := c.toLower ∈ "0123456789abcdef".toList

instance : DecidablePred IsHexDigit := fun c =>
  inferInstanceAs (Decidable (c.toLower ∈ "0123456789abcdef".toList))

theorem toNat_toLower (c : Char) :
    c.toLower.toNat = if 65 ≤ c.toNat ∧ c.toNat ≤ 90 then c.toNat + 32 else c.toNat := by
  have hcapital : (c.val ≥ 'A'.val ∧ c.val ≤ 'Z'.val) ↔ 65 ≤ c.toNat ∧ c.toNat ≤ 90 := by
    simp only [ge_iff_le, UInt32.le_iff_toNat_le]
    rfl
  unfold Char.toLower
  split
  · rename_i h
    have hle : c.val.toNat ≤ 90 := (hcapital.mp h).2
    have hsmall : c.val.toNat + 32 < 2 ^ 32 := by omega
    rw [if_pos (hcapital.mp h)]
    exact (UInt32.toNat_add c.val 32).trans (Nat.mod_eq_of_lt hsmall)
  · rename_i h
    rw [if_neg (mt hcapital.mpr h)]

theorem toNat_digit (d : Fin 16) :
    (digit d).toNat = if d.val < 10 then 48 + d.val else 87 + d.val := by
  revert d
  decide

/-- **A character counts what its small letter stands for.** -/
theorem digit?_eq_some_iff {c : Char} {d : Fin 16} : digit? c = some d ↔ c.toLower = digit d := by
  have hle : ∀ a b : Char, a ≤ b ↔ a.toNat ≤ b.toNat := fun _ _ => Iff.rfl
  rw [← Char.toNat_inj, toNat_toLower, toNat_digit]
  unfold digit?
  simp only [hle]
  grind

theorem isHexDigit_iff {c : Char} : IsHexDigit c ↔ ∃ d, c.toLower = digit d := by
  have hall : "0123456789abcdef".toList = (List.finRange 16).map digit := by decide
  rw [IsHexDigit, hall, List.mem_map]
  simp [eq_comm]

/-- A digit is no hash mark. -/
theorem digit_ne_hash (d : Fin 16) : digit d ≠ '#' := by
  revert d
  decide

theorem IsHexDigit.ne_hash {c : Char} (h : IsHexDigit c) : c ≠ '#' := by
  rintro rfl
  exact absurd h (by decide)

theorem mapM_digit?_eq_some_iff {cs : List Char} {ds : List (Fin 16)} :
    cs.mapM digit? = some ds ↔ cs.map Char.toLower = ds.map digit := by
  induction cs generalizing ds with
  | nil => cases ds <;> simp
  | cons c cs ih =>
    cases ds with
    | nil => simp [Option.bind_eq_some_iff]
    | cons d ds => simp [Option.bind_eq_some_iff, digit?_eq_some_iff, ih]

/-- A text of digits stands for a list of numbers. -/
theorem exists_map_digit_iff {cs : List Char} :
    (∃ ds : List (Fin 16), cs.map Char.toLower = ds.map digit) ↔ ∀ c ∈ cs, IsHexDigit c := by
  constructor
  · rintro ⟨ds, hds⟩ c hc
    have hmem : c.toLower ∈ ds.map digit := hds ▸ List.mem_map_of_mem hc
    obtain ⟨d, _, hd⟩ := List.mem_map.mp hmem
    exact isHexDigit_iff.mpr ⟨d, hd.symm⟩
  · intro h
    induction cs with
    | nil => exact ⟨[], rfl⟩
    | cons c cs ih =>
      obtain ⟨d, hd⟩ := isHexDigit_iff.mp (h c List.mem_cons_self)
      obtain ⟨ds, hds⟩ := ih fun x hx => h x (List.mem_cons_of_mem _ hx)
      exact ⟨d :: ds, by rw [List.map_cons, List.map_cons, hd, hds]⟩

/-! ## Channels -/

theorem digits_channel (high low : Fin 16) :
    digits (channel high low) = [digit high, digit low] := by
  have hhigh : (16 * high.val + low.val) / 16 = high.val := by omega
  have hlow : (16 * high.val + low.val) % 16 = low.val := by omega
  simp [digits, channel, hhigh, hlow]

/-- The six digits of a colour, as numbers. -/
def counts (c : Rgb) : List (Fin 16) :=
  [⟨c.red.val / 16, by omega⟩, ⟨c.red.val % 16, by omega⟩,
   ⟨c.green.val / 16, by omega⟩, ⟨c.green.val % 16, by omega⟩,
   ⟨c.blue.val / 16, by omega⟩, ⟨c.blue.val % 16, by omega⟩]

theorem toList_hex (c : Rgb) : c.hex.toList = c.counts.map digit := String.toList_ofList

theorem toList_hex_mk (r r' g g' b b' : Fin 16) :
    (Rgb.mk (channel r r') (channel g g') (channel b b')).hex.toList =
      [r, r', g, g', b, b'].map digit := by
  rw [hex, String.toList_ofList, digits_channel, digits_channel, digits_channel]
  rfl

/-! ## Colours -/

/-- **A text is read as the colour whose digits it has**, in letters of either case. -/
theorem ofHex?_eq_some_iff {text : String} {c : Rgb} :
    ofHex? text = some c ↔
      (text.toList.dropWhile (· == '#')).map Char.toLower = c.hex.toList := by
  unfold ofHex?
  constructor
  · intro h
    split at h
    · rename_i r r' g g' b b' hread
      obtain rfl := Option.some.inj h
      rw [mapM_digit?_eq_some_iff.mp hread, toList_hex_mk]
    · exact absurd h (by simp)
  · intro h
    rw [mapM_digit?_eq_some_iff.mpr (h.trans (toList_hex c))]
    simp only [counts, channel_of_digits]

/-- **A colour is read back as it was written.** -/
theorem ofHex?_hex (c : Rgb) : ofHex? c.hex = some c := by
  have hdrop : c.hex.toList.dropWhile (· == '#') = c.hex.toList := by
    rw [toList_hex]
    exact List.dropWhile_cons_of_neg (by simp [digit_ne_hash])
  have hsmall : c.hex.toList.map Char.toLower = c.hex.toList := by
    have hdigit : ∀ d, (digit d).toLower = digit d := by decide
    rw [toList_hex, List.map_map]
    exact List.map_congr_left fun d _ => hdigit d
  rw [ofHex?_eq_some_iff, hdrop, hsmall]

/-- **Six digits are those of a colour**, and nothing else is. -/
theorem exists_hex_iff {cs : List Char} :
    (∃ c : Rgb, cs.map Char.toLower = c.hex.toList) ↔
      cs.length = 6 ∧ ∀ x ∈ cs, IsHexDigit x := by
  rw [← exists_map_digit_iff]
  constructor
  · rintro ⟨c, hc⟩
    rw [toList_hex] at hc
    exact ⟨by simpa [counts] using congrArg List.length hc, c.counts, hc⟩
  · rintro ⟨hlength, ds, hds⟩
    have hsix : ds.length = 6 := by simpa [hlength] using (congrArg List.length hds).symm
    match ds, hsix with
    | [r, r', g, g', b, b'], _ =>
      exact ⟨⟨channel r r', channel g g', channel b b'⟩, hds.trans (toList_hex_mk ..).symm⟩

/-- The text shows a colour by these six digits, behind any number of `#`. -/
def Shows (text : String) (digits : List Char) : Prop :=
  ∃ marks, text.toList = marks ++ digits ∧ (∀ c ∈ marks, c = '#') ∧
    digits.length = 6 ∧ ∀ c ∈ digits, IsHexDigit c

/-- **A text is read as a colour if and only if it shows one**, and the colour is written with the
digits of the text, in small letters. -/
theorem ofHex?_eq_some_iff_shows {text : String} {c : Rgb} :
    ofHex? text = some c ↔
      ∃ digits, Shows text digits ∧ c.hex = String.ofList (digits.map Char.toLower) := by
  rw [ofHex?_eq_some_iff]
  constructor
  · intro h
    refine ⟨text.toList.dropWhile (· == '#'), ?_, ?_⟩
    · exact ⟨text.toList.takeWhile (· == '#'), List.takeWhile_append_dropWhile.symm,
        fun x hx => by simpa using List.mem_takeWhile_imp hx, exists_hex_iff.mp ⟨c, h⟩⟩
    · rw [h, String.ofList_toList]
  · rintro ⟨digits, ⟨marks, htext, hmarks, hlength, hdigits⟩, hc⟩
    -- the marks end where the digits begin
    have hdrop : digits.dropWhile (· == '#') = digits := by
      cases digits with
      | nil => rfl
      | cons x xs =>
        have hx := (hdigits x List.mem_cons_self).ne_hash
        exact List.dropWhile_cons_of_neg (by simpa using hx)
    rw [htext, List.dropWhile_append_of_pos (by simpa using hmarks), hdrop, hc,
      String.toList_ofList]

/-- The marks do not matter. -/
theorem Shows.unmarked {text : String} {digits : List Char} (h : Shows text digits) :
    Shows (String.ofList digits) digits := by
  obtain ⟨_, _, _, hdigits⟩ := h
  exact ⟨[], by simp, by simp, hdigits⟩

theorem Shows.exists_color {text : String} {digits : List Char} (h : Shows text digits) :
    ∃ c : Rgb, c.hex = String.ofList (digits.map Char.toLower) := by
  obtain ⟨_, _, _, hdigits⟩ := h
  obtain ⟨c, hc⟩ := exists_hex_iff.mpr hdigits
  exact ⟨c, by rw [hc, String.ofList_toList]⟩

end TermShell.Rgb
