import TermShell.Proofs.Help.Record
import TermShell.Proofs.Settings
import TermShell.Proofs.Tree.Places
import TermShell.Proofs.Volume.Overwrite

/-!
# The names of the colours in the help

The names of the colours are put into the help of the color program as they are, with no regard to
the brackets and separators around them, and they are the user's. Still no name can break a record.
The one thing that could is a line break, since a separator of records begins with one, and a name
is part of a line. Brackets, dashes and quotes in a name stay inside the brackets of the record, and
a name that reads like the placeholder is not filled in again.

So of the records of the program nothing changes but the body that was the placeholder
(`update_fills_in_names`).
-/

namespace TermShell

/-! ## One body in a list of records -/

namespace HelpRecord

/-- What is written in front of the body of a record, with the records before it. -/
def textBefore (rs : List HelpRecord) (heading : String) : String :=
  String.join (rs.map fun r => r.encode ++ recordSeparator) ++ ("[" ++ heading ++ fieldSeparator)

/-- What is written behind the body of a record, with the records after it. -/
def textAfter (rs : List HelpRecord) : String :=
  "]" ++ String.join (rs.map fun r => recordSeparator ++ r.encode)

theorem encodeAll_cons (r : HelpRecord) (rs : List HelpRecord) :
    encodeAll (r :: rs) =
      r.encode ++ String.join (rs.map fun r => recordSeparator ++ r.encode) := by
  induction rs generalizing r with
  | nil => simp [encodeAll]
  | cons next more ih =>
    have hall : encodeAll (r :: next :: more) =
        r.encode ++ recordSeparator ++ encodeAll (next :: more) := by
      simp [encodeAll]
    rw [hall, ih next]
    simp [String.append_assoc]

/-- **The body of a record stands between two texts that do not depend on it.** -/
theorem encodeAll_around (before after : List HelpRecord) (heading body : String) :
    encodeAll (before ++ ⟨heading, body⟩ :: after) =
      textBefore before heading ++ body ++ textAfter after := by
  induction before with
  | nil =>
    rw [List.nil_append, encodeAll_cons]
    simp [encode, textBefore, textAfter, String.append_assoc]
  | cons r rest ih =>
    have hall : encodeAll (r :: rest ++ ⟨heading, body⟩ :: after) =
        r.encode ++ recordSeparator ++ encodeAll (rest ++ ⟨heading, body⟩ :: after) := by
      cases rest <;> simp [encodeAll]
    rw [hall, ih]
    simp [textBefore, String.append_assoc]

variable {before after : List HelpRecord} {heading : String}

/-- **Where a body reads like nothing else in the text, it alone is replaced.** -/
theorem replace_body {old : String} (new : String) (hold : old ≠ "")
    (hbefore : ¬ old.toList <:+: (textBefore before heading).toList ++ old.toList.dropLast)
    (hafter : ¬ old.toList <:+: (textAfter after).toList) :
    Text.replace old new (encodeAll (before ++ ⟨heading, old⟩ :: after)) =
      encodeAll (before ++ ⟨heading, new⟩ :: after) := by
  rw [encodeAll_around, encodeAll_around, Text.replace_once hold hbefore hafter]

/-- What stands in front of the body holds no other characters than the records and the separators
do. -/
theorem not_mem_textBefore {c : Char} (hc : c ∉ "[:=]\n-".toList)
    (hrecords : ∀ r ∈ before, c ∉ r.heading.toList ∧ c ∉ r.body.toList)
    (hheading : c ∉ heading.toList) : c ∉ (textBefore before heading).toList := by
  have hmarks : c ≠ '[' ∧ c ≠ ']' ∧ c ∉ fieldSeparator.toList ∧ c ∉ recordSeparator.toList := by
    simp [fieldSeparator, recordSeparator] at hc ⊢
    grind
  obtain ⟨hopen, hclose, hfield, hrecord⟩ := hmarks
  have hencode : ∀ r ∈ before, c ∉ r.encode.toList ∧ c ∉ recordSeparator.toList := by
    intro r hr
    obtain ⟨hh, hb⟩ := hrecords r hr
    simp [encode, hopen, hclose, hfield, hrecord, hh, hb]
  simpa [textBefore, hopen, hfield, hheading] using hencode

/-- A separator of records needs a line break. -/
theorem not_infix_of_newline_not_mem {s : String} (h : '\n' ∉ s.toList) :
    ¬ recordSeparator.toList <:+: s.toList := by
  intro hin
  exact h (hin.subset (by decide))

/-- A record stays plain with any body that is one line. -/
theorem Plain.withBody {r : HelpRecord} (h : r.Plain) {body : String} (hbody : '\n' ∉ body.toList) :
    Plain { r with body } where
  heading_whole := h.heading_whole
  body_whole := not_infix_of_newline_not_mem hbody
  heading_unseparated := h.heading_unseparated
  heading_unmet := h.heading_unmet

end HelpRecord

namespace Settings

/-! ## The names -/

/-- The names of the settings whose values are colours, in order. -/
def colorNames (config : Config) : List String :=
  (config.settings.filter fun kv => (Rgb.ofHex? kv.2).isSome).map Prod.fst

theorem map_fst_colorsOf (config : Config) :
    (colorsOf config).map Prod.fst = colorNames config := by
  unfold colorsOf colorNames
  induction config.settings with
  | nil => rfl
  | cons kv rest ih =>
    cases hcolor : Rgb.ofHex? kv.2 with
    | none => simpa [hcolor] using ih
    | some c => simpa [hcolor] using ih

/-- **The names make one line**, whatever the text they come from. -/
theorem newline_not_mem_names {text : String} {config : Config}
    (h : Config.parse text = some config) :
    '\n' ∉ (String.intercalate ", " (colorNames config)).toList := by
  refine Text.not_mem_intercalate (by decide) fun name hname => ?_
  obtain ⟨kv, hkv, rfl⟩ := List.mem_map.mp hname
  exact (Config.plain_of_parse h kv (List.mem_filter.mp hkv).1).key_on_line

/-! ## The help of the color program -/

/-- The records in front of the list of colours. -/
def colorHelp : List HelpRecord := ((Program.find? "color").elim [] Program.records).dropLast

theorem plain_colorHelp (body : String) (hbody : '\n' ∉ body.toList) :
    ∀ r ∈ colorHelp ++ [⟨"COLORS", body⟩], r.Plain := by
  have hfront : ∀ r ∈ colorHelp, r.Plain := by decide +kernel
  have hlast : (⟨"COLORS", ""⟩ : HelpRecord).Plain := by decide +kernel
  intro r hr
  rcases List.mem_append.mp hr with hr | hr
  · exact hfront r hr
  · obtain rfl := List.mem_singleton.mp hr
    exact hlast.withBody hbody

/-- **Filling in the names gives the records with the names for the placeholder.** -/
theorem decodeAll_fillColors {text : String} {config : Config}
    (h : Config.parse text = some config) :
    HelpRecord.decodeAll (fillColors (colorsOf config)
        (HelpRecord.encodeAll (colorHelp ++ [⟨"COLORS", Program.colorsPlaceholder⟩]))) =
      colorHelp ++ [⟨"COLORS", String.intercalate ", " (colorNames config)⟩] := by
  -- the mark of which the placeholder is made stands nowhere in front of it
  have hmark : '@' ∉ (HelpRecord.textBefore colorHelp "COLORS").toList :=
    HelpRecord.not_mem_textBefore (by decide) (by decide +kernel) (by decide)
  have hbefore : ¬ Program.colorsPlaceholder.toList <:+:
      (HelpRecord.textBefore colorHelp "COLORS").toList ++
        Program.colorsPlaceholder.toList.dropLast := by
    have hplaceholder : Program.colorsPlaceholder.toList = '@' :: ['@', '@', '@'] := by decide
    rw [hplaceholder]
    exact Text.not_infix_append_dropLast hmark
  rw [fillColors, map_fst_colorsOf, HelpRecord.replace_body _ (by decide) hbefore (by decide)]
  exact HelpRecord.decodeAll_encodeAll (plain_colorHelp _ (newline_not_mem_names h))

/-! ## The update -/

variable {v : Volume} {text : String} {program : Node}

theorem updateColorProgram_of_parse_none
    (htext : v.tree.read? Layout.colorConfigPath = some text) (h : Config.parse text = none) :
    updateColorProgram v = .error (.empty Layout.colorConfigPath) := by
  rw [updateColorProgram, colors, colorConfig, load_of_read? htext, h]
  rfl

/-- **An update writes to the color program and nowhere else.** -/
theorem updateColorProgram_of_parse_some
    (htext : v.tree.read? Layout.colorConfigPath = some text)
    (hprogram : v.tree.findFile v.tree.rootNode colorProgramPath = some program) {config : Config}
    (h : Config.parse text = some config) :
    updateColorProgram v = .ok (v.overwrite
      (Tree.writing program.id (fillColors (colorsOf config) program.text))) := by
  obtain ⟨hget, hfile⟩ := Tree.of_findFile hprogram
  rw [updateColorProgram, colors, colorConfig, load_of_read? htext, h]
  simp only [Except.map, Option.elim_some, hprogram, v.write_eq_overwrite hget hfile]

/-- The two files of a fresh system, the colours and the program, are there and are not the same,
and the program holds its help with the placeholder. -/
theorem exists_color_files : ∃ conf program,
    Layout.tree.findFile Layout.tree.rootNode Layout.colorConfigPath = some conf ∧
      Layout.tree.findFile Layout.tree.rootNode colorProgramPath = some program ∧
      program.id ≠ conf.id ∧
      program.text =
        HelpRecord.encodeAll (colorHelp ++ [⟨"COLORS", Program.colorsPlaceholder⟩]) := by
  have hfound :
      (Layout.tree.findFile Layout.tree.rootNode Layout.colorConfigPath).isSome = true ∧
        (Layout.tree.findFile Layout.tree.rootNode colorProgramPath).isSome = true := by
    decide +kernel
  have hfiles : ∀ conf ∈ Layout.tree.findFile Layout.tree.rootNode Layout.colorConfigPath,
      ∀ program ∈ Layout.tree.findFile Layout.tree.rootNode colorProgramPath,
        program.id ≠ conf.id ∧ program.text =
          HelpRecord.encodeAll (colorHelp ++ [⟨"COLORS", Program.colorsPlaceholder⟩]) := by
    decide +kernel
  obtain ⟨conf, hconf⟩ := Option.isSome_iff_exists.mp hfound.1
  obtain ⟨program, hprogram⟩ := Option.isSome_iff_exists.mp hfound.2
  exact ⟨conf, program, hconf, hprogram, hfiles conf hconf program hprogram⟩

/-- What a path finds is found overwritten in the overwritten tree. -/
theorem findFile_of_overwrite {g : Nat → String → String} {t : Tree} {path : String} {n : Node}
    (h : t.findFile t.rootNode path = some n) :
    (t.overwrite g).findFile (t.overwrite g).rootNode path = some (n.overwrite g) := by
  rw [Tree.rootNode_overwrite, Tree.findFile_overwrite, h, Option.map_some]

theorem read?_of_writing {t : Tree} {path : String} {n : Node}
    (h : t.findFile t.rootNode path = some n) (contents : String) :
    (t.overwrite (Tree.writing n.id contents)).read? path = some contents := by
  rw [Tree.read?, findFile_of_overwrite h, Tree.overwrite_writing, Option.map_some,
    Node.text_withContents (Tree.of_findFile h).2]

/-- What is written to one file is read there, and another file is found as it was. -/
theorem exists_write {v : Volume} {path path' : String} {n n' : Node}
    (hn : v.tree.findFile v.tree.rootNode path = some n)
    (hn' : v.tree.findFile v.tree.rootNode path' = some n') (hne : n'.id ≠ n.id)
    (contents : String) :
    ∃ w, v.write n.id contents = .ok w ∧ w.tree.read? path = some contents ∧
      w.tree.findFile w.tree.rootNode path' = some n' := by
  obtain ⟨hget, hfile⟩ := Tree.of_findFile hn
  have hspared : n'.overwrite (Tree.writing n.id contents) = n' :=
    n'.overwrite_of_text (if_neg hne)
  have hfound := findFile_of_overwrite (g := Tree.writing n.id contents) hn'
  rw [hspared] at hfound
  exact ⟨_, v.write_eq_overwrite hget hfile contents, read?_of_writing hn contents, hfound⟩

/--
**Filling in the names of the colours does no damage to the help.**

Let any text be written to the file of the colours of a fresh system. If it is no configuration,
the update is refused and the volume stays the same. Otherwise the update changes the contents of
the color program and nothing else, and the records read from it are those that were read before,
in the same order, but for the body of the last, the list of colours: this is now the names of
those settings in the text whose values are colours, in the order of the text.
-/
theorem update_fills_in_names (text : String) :
    ∃ conf program v,
      Layout.tree.findFile Layout.tree.rootNode Layout.colorConfigPath = some conf ∧
        Layout.tree.findFile Layout.tree.rootNode colorProgramPath = some program ∧
        Volume.standard.write conf.id text = .ok v ∧
        (Config.parse text = none →
          updateColorProgram v = .error (.empty Layout.colorConfigPath) ∧ refreshed v = v) ∧
        ∀ config, Config.parse text = some config →
          ∃ v' others, updateColorProgram v = .ok v' ∧ refreshed v = v' ∧ v'.next = v.next ∧
            v.tree.SameBut (· = program.id) v'.tree ∧
            (v.tree.read? colorProgramPath).map HelpRecord.decodeAll =
              some (others ++ [⟨"COLORS", Program.colorsPlaceholder⟩]) ∧
            (∀ r ∈ others, r.heading ≠ "COLORS") ∧
            (v'.tree.read? colorProgramPath).map HelpRecord.decodeAll =
              some (others ++ [⟨"COLORS", String.intercalate ", " (colorNames config)⟩]) := by
  obtain ⟨conf, program, hconf, hprogram, hne, hhelp⟩ := exists_color_files
  obtain ⟨v, hwrite, htext, hfound⟩ :=
    exists_write (v := Volume.standard) hconf hprogram hne text
  refine ⟨conf, program, v, hconf, hprogram, hwrite, fun hnone => ?_, fun config hconfig => ?_⟩
  · have hrefused := updateColorProgram_of_parse_none htext hnone
    exact ⟨hrefused, by rw [refreshed, hrefused]⟩
  · have hupdate := updateColorProgram_of_parse_some htext hfound hconfig
    have hplain := plain_colorHelp Program.colorsPlaceholder (by decide)
    refine ⟨_, colorHelp, hupdate, by rw [refreshed, hupdate], rfl,
      Tree.sameBut_overwrite _ fun id hid s => if_neg hid, ?_, by decide +kernel, ?_⟩
    · rw [Tree.read?, hfound, Option.map_some, Option.map_some, hhelp,
        HelpRecord.decodeAll_encodeAll hplain]
    · rw [Volume.tree_overwrite, read?_of_writing hfound, Option.map_some, hhelp,
        decodeAll_fillColors hconfig]

/-- Names that read like a separator, like the placeholder and like brackets, one of them twice. -/
theorem update_fills_in_names_of_marks :
    let text := "---:ffffff\n@@@@ : #AbCdEf\nmauve:light\n[\"]=:000000\n---:123456"
    ∃ config, Config.parse text = some config ∧
      ∃ conf v v', Volume.standard.write conf text = .ok v ∧ updateColorProgram v = .ok v' ∧
        ((v'.tree.read? colorProgramPath).map HelpRecord.decodeAll).map List.getLast? =
          some (some ⟨"COLORS", "---, @@@@, [\"]=, ---"⟩) := by
  intro text
  have hparse : Config.parse text = some ⟨[("---", "ffffff"), ("@@@@", "#AbCdEf"),
      ("mauve", "light"), ("[\"]=", "000000"), ("---", "123456")]⟩ := by
    decide +kernel
  obtain ⟨conf, program, v, _, _, hwrite, _, hsome⟩ := update_fills_in_names text
  obtain ⟨v', others, hupdate, _, _, _, _, _, hread⟩ := hsome _ hparse
  refine ⟨_, hparse, conf.id, v, v', hwrite, hupdate, ?_⟩
  rw [hread, Option.map_some, List.getLast?_concat]
  decide +kernel

end Settings

end TermShell
