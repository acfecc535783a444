import TermShell.Proofs.Interpreter.Lines
import TermShell.Proofs.Permission
import TermShell.Proofs.Tree.Growth

/-!
# Permissions as they are given and shown

Permissions are given as six digits, and the answer to anything else is a complaint. What has been
given is shown as the digits that were typed, and read out. In between the tree is another one: the
name has to find what it found before, which it does, because a node that is given permissions keeps
its place and its names (`Volume.find_of_growsTo`).
-/

namespace TermShell

/-- A name finds what has become of what it found, in a tree that has grown. -/
theorem Volume.find_of_growsTo {v v' : Volume} (hv : v.tree.Sound) (hgrows : v.tree.GrowsTo v'.tree)
    (hcurrent : v'.tree.current = v.tree.current) {name : String} {n : Node}
    (hfind : v.find name Tree.anyKind = .ok n) :
    ∃ n', v'.find name Tree.anyKind = .ok n' ∧ v.tree.Becomes v'.tree n n' := by
  obtain ⟨hname, hchild⟩ := find_eq_ok_iff.mp hfind
  have hhere := hv.directory?_currentDirectory
  obtain ⟨d', hd⟩ := hgrows.exists_becomes (Tree.directory?_eq_some_iff.mp hhere).1
  obtain ⟨n', hchild', hn⟩ := hgrows.findChild hv.rooted hd hchild
  have hid := Tree.id_of_get? (Tree.directory?_eq_some_iff.mp hv.directory?_current).1
  have hhere' : v'.tree.directory? v'.tree.current = some d' := by
    rw [hcurrent, ← hid]
    exact hgrows.directory? hd hhere
  exact ⟨n', find_of_findChild hname hhere' hchild', hn⟩

/-- To be given permissions is to stay as one is otherwise. -/
theorem Node.GrowsTo.withPermissions (n : Node) (permissions : PermissionSet) :
    n.GrowsTo { n with permissions } :=
  ⟨rfl, rfl, rfl, rfl, List.prefix_rfl⟩

namespace Interpreter

open PermissionSet (IsBits Sentence marked)

variable {v : Volume} {name bits : String}

/-- What stands behind one word in quotes is found behind its first blank. -/
theorem dropWhile_quoted_append (hname : Solid name) {rest : List Char}
    (hrest : ∀ c, rest.head? = some c → Text.isBlank c = true) :
    ((quoted name).toList ++ rest).dropWhile (fun c => !Text.isBlank c) = rest := by
  have hfront : ∀ c ∈ (quoted name).toList, (!Text.isBlank c) = true := by
    intro c hc
    have hcases : c = '"' ∨ c ∈ name.toList ∨ c = '"' := by simpa [quoted] using hc
    rcases hcases with rfl | hc | rfl
    · decide
    · simp [hname.2 c hc]
    · decide
  rw [List.dropWhile_append_of_pos hfront]
  cases rest with
  | nil => rfl
  | cons c rest => exact List.dropWhile_cons_of_neg (by simp [hrest c rfl])

/--
**Permissions are given as six digits, and shown as they were given.**

In an intact tree let the user write in the current directory, and let a name find something there.
The line that gives it permissions is accepted exactly if these are written as six digits. Then it
has the permissions that are marked by a one, in the order in which permissions are written, and all
else in the tree is as it was; asked for the permissions under the same name, the shell answers with
the digits and reads the marked permissions out. If the line is not accepted, nothing has changed.
-/
theorem permissions_shown_as_given (ht : v.tree.Intact) {d : Node}
    (hd : v.tree.directory? v.tree.current = some d) (hwrites : d.permissions.userWrites = true)
    (hname : Solid name) (hbits : Solid bits) {n : Node}
    (hfind : v.find name Tree.anyKind = .ok n) :
    let line := "chp " ++ name ++ " " ++ bits
    let accepted := Outcome.message (quoted name ++ " permissions updated to " ++ bits ++ ".")
    (∀ now, (execute now v line).2 = accepted ↔ IsBits bits) ∧
    (IsBits bits → ∃ permissions v' phrase,
      Answers v line accepted v' ∧ v.tree.Altered n { n with permissions } v'.tree ∧
      (∀ p, permissions.contains p = true ↔ p ∈ marked bits) ∧
      Sentence ((marked bits).map fun p => quoted p.label) phrase ∧
      Answers v' ("vp " ++ name) (.message (bits ++ ": " ++ phrase)) v') ∧
    (¬ IsBits bits → ∃ complaint, Answers v line (.message complaint) v) := by
  intro line accepted
  have hv := Tree.sound_of_current ht ⟨d, hd⟩
  obtain rfl : v.tree.currentDirectory = d := Tree.currentDirectory_of_directory? hd
  have hgiven : IsBits bits → ∃ permissions : PermissionSet, bits = permissions.bits ∧ ∃ v',
      Answers v line accepted v' ∧ v.tree.Altered n { n with permissions } v'.tree := by
    intro hdigits
    obtain ⟨permissions, rfl⟩ := PermissionSet.isBits_iff.mp hdigits
    exact ⟨permissions, rfl, answers_changePermissions hwrites hname hfind hbits⟩
  have hrefused : ¬ IsBits bits → ∃ complaint, .message complaint ≠ accepted ∧
      Answers v line (.message complaint) v := by
    intro hdigits
    refine ⟨_, fun hsame => ?_, answers_changePermissions_malformed hwrites hname hfind hbits
      (mt PermissionSet.exists_parse_iff.mp hdigits)⟩
    -- both begin with a word in quotes, and go on differently
    have hchars := congrArg String.toList (Outcome.message.inj hsame)
    simp only [String.toList_append, List.append_assoc] at hchars
    have htail := congrArg (List.dropWhile fun c => !Text.isBlank c) hchars
    rw [dropWhile_quoted_append hbits (by simp [show Text.isBlank ' ' = true by decide]),
      dropWhile_quoted_append hname (by simp [show Text.isBlank ' ' = true by decide])] at htail
    simp at htail
  refine ⟨fun now => ⟨fun haccepted => ?_, fun hdigits => ?_⟩, fun hdigits => ?_, fun hdigits => ?_⟩
  · by_contra hdigits
    obtain ⟨complaint, hne, hanswers⟩ := hrefused hdigits
    rw [hanswers now] at haccepted
    exact hne haccepted
  · obtain ⟨_, _, _, hanswers, _⟩ := hgiven hdigits
    rw [hanswers now]
  · obtain ⟨permissions, rfl, v', hanswers, halt⟩ := hgiven hdigits
    obtain ⟨n', hfind', hn⟩ := Volume.find_of_growsTo hv
      (halt.growsTo (.withPermissions n permissions)) halt.current hfind
    obtain rfl := Option.some.inj (hn.2.symm.trans halt.after)
    have hshown := answers_viewPermissions hname hfind'
    refine ⟨permissions, v', permissions.describe, hanswers, halt, fun p => ?_, ?_, hshown⟩
    · rw [PermissionSet.marked_bits, PermissionSet.mem_toList]
    · rw [PermissionSet.marked_bits]
      exact PermissionSet.sentence_iff.mpr rfl
  · obtain ⟨complaint, _, hanswers⟩ := hrefused hdigits
    exact ⟨complaint, hanswers⟩

/-- At home the mail is a directory. It loses what makes it one that can be read, and another
attempt has one digit too many. -/
theorem permissions_shown_as_given_of_mail :
    ∃ d n, Volume.standard.tree.Intact ∧
      Volume.standard.tree.directory? Volume.standard.tree.current = some d ∧
      d.permissions.userWrites = true ∧ Solid "mail" ∧ Solid "100110" ∧ Solid "1001100" ∧
      Volume.standard.find "mail" Tree.anyKind = .ok n ∧ IsBits "100110" ∧ ¬ IsBits "1001100" ∧
      (∃ v', Answers Volume.standard "chp mail 100110"
          (.message "\"mail\" permissions updated to 100110.") v' ∧
        Answers v' "vp mail" (.message
          "100110: \"admin executable\", \"user executable\", and \"user write\"") v') ∧
      ∃ complaint, Answers Volume.standard "chp mail 1001100" (.message complaint)
        Volume.standard := by
  have hsound : Volume.standard.tree.Sound := Tree.sound_standard
  have hd := hsound.directory?_current
  have hwrites : Volume.standard.tree.currentDirectory.permissions.userWrites = true := by
    decide +kernel
  obtain ⟨n, hchild⟩ : ∃ n, Volume.standard.tree.findChild Volume.standard.tree.currentDirectory
      "mail" Tree.anyKind = some n := Option.isSome_iff_exists.mp (by decide +kernel)
  have hfind : Volume.standard.find "mail" Tree.anyKind = .ok n :=
    Volume.find_eq_ok_iff.mpr ⟨by decide, hchild⟩
  have hname : Solid "mail" := by decide +kernel
  have hsix : Solid "100110" := by decide +kernel
  have hseven : Solid "1001100" := by decide +kernel
  have hdigits : IsBits "100110" := by decide +kernel
  have hmany : ¬ IsBits "1001100" := by decide +kernel
  obtain ⟨_, hgiven, _⟩ :=
    permissions_shown_as_given hsound.intact hd hwrites hname hsix hfind
  obtain ⟨_, _, hrefused⟩ :=
    permissions_shown_as_given hsound.intact hd hwrites hname hseven hfind
  obtain ⟨_, v', phrase, hanswers, _, _, hphrase, hshown⟩ := hgiven hdigits
  have hread : phrase = "\"admin executable\", \"user executable\", and \"user write\"" := by
    rw [PermissionSet.sentence_iff.mp hphrase]
    decide +kernel
  subst hread
  exact ⟨_, n, hsound.intact, hd, hwrites, hname, hsix, hseven, hfind, hdigits, hmany,
    ⟨v', hanswers, hshown⟩, hrefused hmany⟩

end Interpreter

end TermShell
