import TermShell.Proofs.Interpreter.Usage

/-!
# Dots as names

A dot and two dots are steps of a walk, and nothing can be made under them. But a name is looked at
as it is typed, and only then is it cut into a base name and an extension, and a file answers to its
base name too. The name `..a` is valid, and the base name that is left of it is a dot.

So something may well answer to a step (`file_behind_dot`). All that can is a file made under such
a name (`found_under_step`): full names are valid, so what answers to a step has it for its bare
name alone, and the two names of a directory are one. Commands that find nothing under a name turn
the user away and leave the volume as it is (`turnsAway_of_sought?`), whatever the volume is like.
-/

namespace TermShell

/-- A walk takes the component for a step. -/
def Path.IsStep (component : String) : Prop := component = "." ∨ component = ".."

theorem Path.IsStep.ne_empty {step : String} (h : IsStep step) : step ≠ "" := by
  rcases h with rfl | rfl <;> decide

/-- The node is a file with the step for its base name, and with an extension behind it. -/
structure Node.Masks (f : Node) (step : String) : Prop where
  isFile : f.isFile = true
  name : f.name = step
  fullName : ∃ extension, f.fullName = step ++ "." ++ extension

theorem Node.Masks.called {f : Node} {step : String} (h : f.Masks step) : f.Called step :=
  .inr h.name

/-- **What has a valid full name answers to a step only by masking as it.** -/
theorem Node.masks_of_called {n : Node} {step : String} (hstep : Path.IsStep step)
    (hvalid : Path.isValidName n.fullName = true) (hcalled : n.Called step) : n.Masks step := by
  obtain ⟨_, hdot, hdots, _⟩ := Path.isValidName_iff.mp hvalid
  have hfull : n.fullName ≠ step := by
    rcases hstep with rfl | rfl
    · exact hdot
    · exact hdots
  have hname := hcalled.resolve_left hfull
  -- without an extension the full name would be the bare one
  have hextension : ∃ extension, n.extension = some extension := by
    refine Option.ne_none_iff_exists'.mp fun hnone => hfull ?_
    rw [fullName, hnone]
    exact hname
  obtain ⟨extension, he⟩ := hextension
  refine ⟨?_, hname, extension, by rw [fullName, he, FileName.join, hname]⟩
  rw [isFile, Bool.not_eq_true']
  refine Bool.eq_false_iff.mpr fun hdir => hfull ?_
  rw [fullName_of_isDirectory hdir, hname]

namespace Tree

variable {t : Tree}

/-- What is found under a step masks as it, and it is found wherever there is such a file. -/
theorem Sound.findChild_step (ht : t.Sound) (hnamed : t.Named) {d : Node}
    (hd : t.directory? d.id = some d) {step : String} (hstep : Path.IsStep step)
    (wanted : Node → Bool) :
    (t.findChild d step wanted = none ↔
      ∀ f ∈ t.childrenOf d, wanted f = true → ¬ f.Masks step) ∧
    ∀ f, t.findChild d step wanted = some f → f.Masks step := by
  have hget := (directory?_eq_some_iff.mp hd).1
  have hmasks : ∀ n ∈ t.childrenOf d, n.Called step → n.Masks step := by
    intro n hn hcalled
    obtain ⟨hnget, hc⟩ := mem_childrenOf.mp hn
    have hroot : n.id ≠ t.root := fun hid =>
      ht.rooted.root_not_listed d.id ⟨d, hget, hid ▸ hc⟩
    exact Node.masks_of_called hstep (hnamed n.id n hnget hroot) hcalled
  constructor
  · rw [findChild_eq_none_iff]
    exact ⟨fun h f hf hwanted hmask => h f hf hwanted hmask.called,
      fun h n hn hwanted hcalled => h n hn hwanted (hmasks n hn hcalled)⟩
  · intro f hf
    obtain ⟨hfget, hc, _, hanswers⟩ := of_findChild hf
    exact hmasks f (mem_childrenOf.mpr ⟨hfget, hc⟩) (Node.answersTo_iff.mp hanswers)

theorem Sound.findFile_step (ht : t.Sound) (hnamed : t.Named) {start : Node}
    (hstart : t.directory? start.id = some start) {step : String} (hstep : Path.IsStep step)
    {path : String} (hlast : (Path.components path).getLast? = some step) :
    (t.findFile start path = none ↔
      ∀ d, t.walk (t.origin start path) (Path.components path).dropLast = some d →
        ∀ f ∈ t.childrenOf d, ¬ f.Masks step) ∧
    ∀ f, t.findFile start path = some f → f.Masks step := by
  have hchild : ∀ d, t.walk (t.origin start path) (Path.components path).dropLast = some d → _ :=
    fun d hd => ht.findChild_step hnamed
      (ht.directory?_walk (ht.directory?_origin hstart path) hd) hstep Node.isFile
  rw [findFile, hlast]
  constructor
  · rw [Option.bind_eq_none_iff]
    refine forall₂_congr fun d hd => (hchild d hd).1.trans ?_
    exact forall₂_congr fun f _ => ⟨fun hno hmask => hno hmask.isFile hmask, fun hno _ => hno⟩
  · intro f hf
    obtain ⟨d, hd, hfind⟩ := Option.bind_eq_some_iff.mp hf
    exact (hchild d hd).2 f hfind

end Tree

namespace Interpreter

open Calendar (Instant)

variable {v : Volume} {l : CommandLine}

/-! ## Commands that look for something -/

/-- The command looks for something that is called `name`: for a file at the end of a path, or for
a child of the current directory. -/
def Seeks (l : CommandLine) (name : String) : Command → Prop
  | .viewFile => (Path.components l.first).getLast? = some name
  | .editFile | .viewPermissions | .changePermissions | .deleteFile | .deleteDirectory =>
    l.first = name
  | _ => False

/-- What the command finds. -/
def sought? (v : Volume) (l : CommandLine) : Command → Option Node
  | .viewFile => v.resolveFile l.first
  | .editFile | .deleteFile => v.tree.findChild v.tree.currentDirectory l.first Node.isFile
  | .viewPermissions | .changePermissions =>
    v.tree.findChild v.tree.currentDirectory l.first Tree.anyKind
  | .deleteDirectory => v.tree.findChild v.tree.currentDirectory l.first Node.isDirectory
  | _ => none

/-- By this outcome the command says that there is no such thing, or that the user may not change
anything here if there was. -/
def TurnsAway (l : CommandLine) : Command → Outcome → Prop
  | .viewFile, o => o = .message (quoted l.first ++ " does not exist.")
  | .editFile, o => o = .message ("No file with the name '" ++ l.first ++ "' exists.")
  | .viewPermissions, o => o = missing l.first
  | .changePermissions, o => o = missing l.first ∨
      o = .message "Insufficient permissions to change permissions in the current directory."
  | .deleteFile, o => o = .message ("No file with the name of " ++ quoted l.first ++ " exists.") ∨
      o = mayNotDelete l.first
  | .deleteDirectory, o =>
    o = .message ("No folder with the name of " ++ quoted l.first ++ " exists.") ∨
      o = mayNotDelete l.first
  | _, _ => False

theorem Seeks.first_ne_empty {name : String} (hname : name ≠ "") {c : Command}
    (h : Seeks l name c) : l.first ≠ "" := by
  intro hempty
  cases c with
  | viewFile =>
    rw [Seeks, hempty, show Path.components "" = [] by decide +kernel] at h
    exact absurd h (by simp)
  | editFile | viewPermissions | changePermissions | deleteFile | deleteDirectory =>
    exact hname (h.symm.trans hempty)
  | _ => exact h

/-- **A command that finds nothing turns the user away and changes nothing.** -/
theorem turnsAway_of_sought? (now : Instant) {line name : String} {c : Command}
    (hl : Names line l c) (hname : name ≠ "") (hseeks : Seeks l name c)
    (hnone : sought? v l c = none) :
    (execute now v line).1 = v ∧ TurnsAway l c (execute now v line).2 := by
  have hfirst := hseeks.first_ne_empty hname
  have hbare : l.isBare = false := by
    refine Bool.eq_false_iff.mpr fun hbare => hfirst ?_
    rw [CommandLine.first, List.isEmpty_iff.mp hbare]
    rfl
  rw [hl.execute_eq, run, hl.2]
  simp only [hbare, Bool.and_false, Bool.false_eq_true, if_false]
  cases c with
  | viewFile =>
    simp only [sought?] at hnone
    refine ⟨rfl, ?_⟩
    show viewFile v l = _
    rw [viewFile, hnone]
  | editFile =>
    refine ⟨rfl, ?_⟩
    show editFile v l = _
    rw [editFile, (Volume.find_eq_notFound_iff hfirst).mpr hnone]
  | viewPermissions =>
    refine ⟨rfl, ?_⟩
    show viewPermissions v l = _
    rw [viewPermissions, (Volume.find_eq_notFound_iff hfirst).mpr hnone]
  | changePermissions =>
    rw [perform, changePermissions, (Volume.find_eq_notFound_iff hfirst).mpr hnone]
    split
    · exact ⟨rfl, .inl rfl⟩
    · exact ⟨rfl, .inr rfl⟩
  | deleteFile =>
    rw [perform, deleteFile, (Volume.find_eq_notFound_iff hfirst).mpr hnone]
    split
    · exact ⟨rfl, .inl rfl⟩
    · exact ⟨rfl, .inr rfl⟩
  | deleteDirectory =>
    rw [perform, deleteDirectory, (Volume.find_eq_notFound_iff hfirst).mpr hnone]
    split
    · exact ⟨rfl, .inl rfl⟩
    · exact ⟨rfl, .inr rfl⟩
  | _ => exact absurd hseeks id

/-! ## Steps -/

/--
**Nothing answers to a step but files that mask as it.**

After any lines on a fresh system, let a name be a dot or two dots. Looked for in the current
directory, it finds nothing unless some file there, of a kind that is wanted, has a valid full name
that begins with this name and a further dot, and it finds only such files, never a directory. The
same holds of the file at the end of a path that has the step for its last component, in the
directory to which the rest of the path leads. Where there is no such file, the commands that look
for something turn the user away; and the deletion of a directory always does.
-/
theorem found_under_step (h : Typed Volume.standard v) {step : String}
    (hstep : Path.IsStep step) :
    (∀ wanted,
      (v.find step wanted = .error (.notFound step) ↔
        ∀ f ∈ v.tree.childrenOf v.tree.currentDirectory, wanted f = true → ¬ f.Masks step) ∧
      ∀ f, v.find step wanted = .ok f → f.Masks step) ∧
    v.find step Node.isDirectory = .error (.notFound step) ∧
    (∀ path, (Path.components path).getLast? = some step →
      (v.resolveFile path = none ↔
        ∀ d, v.tree.walk (v.tree.origin v.tree.currentDirectory path)
            (Path.components path).dropLast = some d →
          ∀ f ∈ v.tree.childrenOf d, ¬ f.Masks step) ∧
      ∀ f, v.resolveFile path = some f → f.Masks step) ∧
    ∀ now line l c, Names line l c → Seeks l step c →
      ((execute now v line).1 = v ∧ TurnsAway l c (execute now v line).2) ∨
        c ≠ .deleteDirectory ∧ ∃ f, sought? v l c = some f ∧ f.Masks step := by
  obtain ⟨hsound, hnamed⟩ := h.used.sound_named
  have hchild := fun wanted =>
    hsound.findChild_step hnamed hsound.directory?_currentDirectory hstep wanted
  have hdirectory : v.tree.findChild v.tree.currentDirectory step Node.isDirectory = none := by
    refine (hchild _).1.mpr fun f _ hdir hmask => ?_
    have hfile := hmask.isFile
    rw [Node.isFile, hdir] at hfile
    exact absurd hfile (by simp)
  have hresolve := fun path (hlast : (Path.components path).getLast? = some step) =>
    hsound.findFile_step hnamed hsound.directory?_currentDirectory hstep hlast
  refine ⟨fun wanted => ⟨?_, fun f hf => ?_⟩, ?_, hresolve, fun now line l c hl hseeks => ?_⟩
  · rw [Volume.find_eq_notFound_iff hstep.ne_empty, (hchild wanted).1]
  · exact (hchild wanted).2 f (Volume.find_eq_ok_iff.mp hf).2
  · exact (Volume.find_eq_notFound_iff hstep.ne_empty).mpr hdirectory
  cases hsought : sought? v l c with
  | none => exact .inl (turnsAway_of_sought? now hl hstep.ne_empty hseeks hsought)
  | some f =>
    refine .inr ?_
    cases c with
    | viewFile => exact ⟨by simp, f, rfl, (hresolve _ hseeks).2 f hsought⟩
    | editFile | viewPermissions | changePermissions | deleteFile =>
      obtain rfl : l.first = step := hseeks
      exact ⟨by simp, f, rfl, (hchild _).2 f hsought⟩
    | deleteDirectory =>
      obtain rfl : l.first = step := hseeks
      exact absurd (hsought.symm.trans hdirectory) (by simp)
    | _ => exact absurd hseeks id

/-- A fresh system in which a file has been made under a valid name. -/
def masked : Volume := (execute ⟨0, 0⟩ Volume.standard "mf ..a").1

theorem find_masked : ∃ f, masked.find "." Node.isFile = .ok f := by
  have hok : (masked.find "." Node.isFile).isOk = true := by decide +kernel
  cases hfound : masked.find "." Node.isFile with
  | ok f => exact ⟨f, rfl⟩
  | error e =>
    rw [hfound] at hok
    exact absurd hok (by simp [Except.isOk, Except.toBool])

theorem resolveFile_masked : ∃ f, masked.resolveFile "../home/." = some f :=
  Option.isSome_iff_exists.mp (by decide +kernel)

/-- There a dot finds the file, and no directory; so no directory is deleted under it. -/
theorem found_under_step_masked :
    Typed Volume.standard masked ∧ Path.IsStep "." ∧
      (∃ f, masked.find "." Node.isFile = .ok f ∧ f.Masks ".") ∧
      masked.find "." Node.isDirectory = .error (.notFound ".") ∧
      (Path.components "../home/.").getLast? = some "." ∧
      (∃ f, masked.resolveFile "../home/." = some f ∧ f.Masks ".") ∧
      Names "dd ." ⟨"dd", ["."]⟩ .deleteDirectory ∧
      Seeks ⟨"dd", ["."]⟩ "." .deleteDirectory ∧ (execute ⟨0, 0⟩ masked "dd .").1 = masked := by
  have htyped : Typed Volume.standard masked := .line _ _ .start
  have hstep : Path.IsStep "." := .inl rfl
  have hlast : (Path.components "../home/.").getLast? = some "." := by decide +kernel
  have hnames : Names "dd ." ⟨"dd", ["."]⟩ .deleteDirectory :=
    ⟨by decide +kernel, by decide +kernel⟩
  obtain ⟨hfind, hdirectory, hresolve, hlines⟩ := found_under_step htyped hstep
  refine ⟨htyped, hstep, ?_, hdirectory, hlast, ?_, hnames, rfl, ?_⟩
  · obtain ⟨f, hf⟩ := find_masked
    exact ⟨f, hf, (hfind _).2 f hf⟩
  · obtain ⟨f, hf⟩ := resolveFile_masked
    exact ⟨f, hf, (hresolve _ hlast).2 f hf⟩
  · rcases hlines ⟨0, 0⟩ _ _ _ hnames rfl with ⟨hsame, _⟩ | ⟨hnot, _⟩
    · exact hsame
    · exact absurd rfl hnot

/-- So it is not true that nothing answers to a dot, and a line can change what does. -/
theorem file_behind_dot :
    ∃ v, Typed Volume.standard v ∧ (∃ f, v.find "." Node.isFile = .ok f) ∧
      (∃ f, v.resolveFile "../home/." = some f) ∧
      (execute ⟨0, 0⟩ v "chp . 000000").1 ≠ v := by
  refine ⟨masked, .line _ _ .start, find_masked, resolveFile_masked, fun hkept => ?_⟩
  -- it is enough to look at the permissions of the new file
  have hbits := congrArg
    (fun v => (v.tree.get? Volume.standard.next).map fun n => n.permissions.bits) hkept
  exact absurd hbits (by decide +kernel)

end Interpreter

end TermShell
