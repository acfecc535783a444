import TermShell.Proofs.Interpreter.Deeds
import TermShell.Proofs.Text.Runs

/-!
# Lines of a command and a name

A command and arguments of one word each, with blanks between them, make a line, and it is carried
out as that command with these arguments (`execute_of_words`). What the user is answered does not
depend on the time at which such a line is typed, and `Answers` says so.

For each command that is used in this way there is one lemma here about what its line does if there
is nothing in its way. Whoever puts lines behind one another need not look at words any more.
-/

namespace TermShell

open Calendar (Instant)

namespace Interpreter

variable {v : Volume} {name : String}

/-- The name is one word. -/
def Solid (name : String) : Prop := name ≠ "" ∧ ∀ c ∈ name.toList, Text.isBlank c = false

instance (name : String) : Decidable (Solid name) :=
  decidable_of_iff (name ≠ "" ∧ name.toList.any Text.isBlank = false)
    (by simp [Solid, List.any_eq_false])

/-- **A command and its arguments are carried out**, if there are any. -/
theorem execute_of_words (now : Instant) (v : Volume) (c : Command) {line word : String}
    (hword : word ∈ c.aliases) {arguments : List String}
    (hwords : Text.words line = word :: arguments) (hany : arguments ≠ []) :
    execute now v line = perform now v c ⟨word, arguments⟩ := by
  have hnames : Names line ⟨word, arguments⟩ c :=
    ⟨by rw [CommandLine.parse, hwords], c.ofWord?_of_mem_aliases word hword⟩
  rw [hnames.execute_eq, run, hnames.2]
  simp [CommandLine.isBare, hany]

/-- Whenever the line is typed, the outcome is `o` and the volume becomes `v'`. -/
def Answers (v : Volume) (line : String) (o : Outcome) (v' : Volume) : Prop :=
  ∀ now, execute now v line = (v', o)

theorem answers_pair (c : Command) (word : String) (hword : word ∈ c.aliases)
    (hsolid : Solid word) (hname : Solid name) {v' : Volume} {o : Outcome}
    (h : ∀ now, perform now v c ⟨word, [name]⟩ = (v', o)) :
    Answers v (word ++ " " ++ name) o v' := fun now => by
  have hwords : Text.words (word ++ " " ++ name) = [word, name] := by
    rw [Text.words_append, Text.words_eq_singleton hsolid, Text.words_eq_singleton hname]
    rfl
  exact (execute_of_words now v c hword hwords (by simp)).trans (h now)

theorem answers_triple (c : Command) (word : String) (hword : word ∈ c.aliases)
    (hsolid : Solid word) (hname : Solid name) {second : String} (hsecond : Solid second)
    {v' : Volume} {o : Outcome} (h : ∀ now, perform now v c ⟨word, [name, second]⟩ = (v', o)) :
    Answers v (word ++ " " ++ name ++ " " ++ second) o v' := fun now => by
  have hwords : Text.words (word ++ " " ++ name ++ " " ++ second) = [word, name, second] := by
    rw [Text.words_append, Text.words_append, Text.words_eq_singleton hsolid,
      Text.words_eq_singleton hname, Text.words_eq_singleton hsecond]
    rfl
  exact (execute_of_words now v c hword hwords (by simp)).trans (h now)

/-! ## What the lines do -/

/-- A file is made. -/
theorem answers_makeFile (hv : v.tree.Sound) (hallows : v.allows ⟨.user, .write⟩ = true)
    (hname : Path.isValidName name = true) (hsolid : Solid name) :
    ∃ v' n, Answers v ("mf " ++ name) .silent v' ∧ v.Makes name n ∧ n.isFile = true ∧
      v.tree.Appended v.tree.current n v'.tree := by
  obtain ⟨v', hcreate⟩ := Volume.createFile_of_valid hv.directory?_current hname
  obtain ⟨n, hmakes, hfile, happ⟩ := Volume.of_createFile hcreate
  refine ⟨v', n, answers_pair .makeFile "mf" (by decide) (by decide) hsolid fun now => ?_,
    hmakes, hfile, happ⟩
  show makeFile v ⟨"mf", [name]⟩ = _
  rw [makeFile, if_pos hallows]
  show made v name (v.createFile name) = _
  rw [hcreate, made]

/-- A directory is made. -/
theorem answers_makeDirectory (hv : v.tree.Sound) (hallows : v.allows ⟨.user, .write⟩ = true)
    (hname : Path.isValidName name = true) (hsolid : Solid name) :
    ∃ v' n, Answers v ("md " ++ name) .silent v' ∧ v.Makes name n ∧ n.isDirectory = true ∧
      v.tree.Appended v.tree.current n v'.tree := by
  obtain ⟨v', hcreate⟩ := Volume.createDirectory_of_valid hv.directory?_current hname
  obtain ⟨n, hmakes, hdir, happ⟩ := Volume.of_createDirectory hcreate
  refine ⟨v', n, answers_pair .makeDirectory "md" (by decide) (by decide) hsolid fun now => ?_,
    hmakes, hdir, happ⟩
  show makeDirectory v ⟨"md", [name]⟩ = _
  rw [makeDirectory, if_pos hallows]
  show made v name (v.createDirectory name) = _
  rw [hcreate, made]

/-- The file that the name finds is deleted. -/
theorem answers_deleteFile (hv : v.tree.Sound) (hallows : v.allows ⟨.user, .write⟩ = true)
    (hsolid : Solid name) {n : Node} (hfind : v.find name Node.isFile = .ok n) :
    ∃ v', Answers v ("df " ++ name) (.message (quoted name ++ " deleted.")) v' ∧
      v.tree.Removed v.tree.current n.id v'.tree ∧ v'.tree.current = v.tree.current := by
  obtain ⟨_, hl, _⟩ := Volume.of_find hv hfind
  obtain ⟨v', hdelete, hrem, hcurrent⟩ := deleteChild_of_lists hv name hl
  refine ⟨v', answers_pair .deleteFile "df" (by decide) (by decide) hsolid fun now => ?_,
    hrem, hcurrent⟩
  show deleteFile v ⟨"df", [name]⟩ = _
  have hfirst : (⟨"df", [name]⟩ : CommandLine).first = name := rfl
  rw [deleteFile, if_pos hallows, hfirst, hfind]
  exact hdelete

/-- The directory that the name finds is deleted, if there is nothing in it. -/
theorem answers_deleteDirectory (hv : v.tree.Sound) (hallows : v.allows ⟨.user, .write⟩ = true)
    (hsolid : Solid name) {n : Node} (hfind : v.find name Node.isDirectory = .ok n)
    (hnil : n.children = []) :
    ∃ v', Answers v ("dd " ++ name) (.message (quoted name ++ " deleted.")) v' ∧
      v.tree.Removed v.tree.current n.id v'.tree ∧ v'.tree.current = v.tree.current := by
  obtain ⟨_, hl, _⟩ := Volume.of_find hv hfind
  obtain ⟨v', hdelete, hrem, hcurrent⟩ := deleteChild_of_lists hv name hl
  refine ⟨v', answers_pair .deleteDirectory "dd" (by decide) (by decide) hsolid fun now => ?_,
    hrem, hcurrent⟩
  show deleteDirectory v ⟨"dd", [name]⟩ = _
  have hfirst : (⟨"dd", [name]⟩ : CommandLine).first = name := rfl
  rw [deleteDirectory, if_pos hallows, hfirst, hfind]
  simp only [hnil, List.isEmpty_nil, Bool.or_true, if_true]
  exact hdelete

/-- The user goes to the directory that the path means. -/
theorem answers_changeDirectory (hv : v.tree.Sound) {path : String} (hsolid : Solid path)
    {d : Node} (hd : v.resolveDirectory path = some d) (hreads : d.permissions.userReads = true) :
    ∃ v', Answers v ("cd " ++ path) .silent v' ∧ v'.tree = { v.tree with current := d.id } := by
  refine ⟨v.setCurrent d.id,
    answers_pair .changeDirectory "cd" (by decide) (by decide) hsolid fun now => ?_,
    Volume.tree_setCurrent (Volume.directory?_resolveDirectory hv hd)⟩
  show changeDirectory v ⟨"cd", [path]⟩ = _
  have hfirst : (⟨"cd", [path]⟩ : CommandLine).first = path := rfl
  unfold changeDirectory
  rw [hfirst, hd]
  simp only [hreads, if_true]

/-- The path means no directory. -/
theorem answers_changeDirectory_missing {path : String} (hsolid : Solid path)
    (hnone : v.resolveDirectory path = none) :
    Answers v ("cd " ++ path) (.message (quoted path ++ " is not a directory.")) v := by
  refine answers_pair .changeDirectory "cd" (by decide) (by decide) hsolid fun now => ?_
  show changeDirectory v ⟨"cd", [path]⟩ = _
  have hfirst : (⟨"cd", [path]⟩ : CommandLine).first = path := rfl
  unfold changeDirectory
  rw [hfirst, hnone]

/-- The path means a directory that the user may not read. -/
theorem answers_changeDirectory_forbidden {path : String} (hsolid : Solid path) {d : Node}
    (hd : v.resolveDirectory path = some d) (hreads : d.permissions.userReads = false) :
    Answers v ("cd " ++ path) (.message ("Insufficient permissions to enter the " ++
      quoted (v.tree.path d) ++ " directory.")) v := by
  refine answers_pair .changeDirectory "cd" (by decide) (by decide) hsolid fun now => ?_
  show changeDirectory v ⟨"cd", [path]⟩ = _
  have hfirst : (⟨"cd", [path]⟩ : CommandLine).first = path := rfl
  unfold changeDirectory
  rw [hfirst, hd]
  simp only [hreads, Bool.false_eq_true, if_false]

/-- The editor is asked for, on the file that the name finds. -/
theorem answers_editFile {n : Node} (hsolid : Solid name)
    (hfind : v.find name Node.isFile = .ok n) (hwrites : n.permissions.userWrites = true) :
    Answers v ("edit " ++ name) (.edit n.id) v := by
  refine answers_pair .editFile "edit" (by decide) (by decide) hsolid fun now => ?_
  show (v, editFile v ⟨"edit", [name]⟩) = _
  have hfirst : (⟨"edit", [name]⟩ : CommandLine).first = name := rfl
  rw [editFile, hfirst, hfind]
  simp only [hwrites, if_true]

/-- The file that the name means is shown. -/
theorem answers_viewFile {f : Node} (hsolid : Solid name) (hfile : v.resolveFile name = some f)
    (hexec : f.permissions.isExecutable = false) (hreads : f.permissions.userReads = true) :
    Answers v ("vw " ++ name) (.message f.text) v := by
  refine answers_pair .viewFile "vw" (by decide) (by decide) hsolid fun now => ?_
  show (v, viewFile v ⟨"vw", [name]⟩) = _
  have hfirst : (⟨"vw", [name]⟩ : CommandLine).first = name := rfl
  rw [viewFile, hfirst, hfile]
  simp only [hexec, hreads, Bool.false_eq_true, if_false, if_true]

/-- The permissions of what the name finds are shown. -/
theorem answers_viewPermissions {n : Node} (hsolid : Solid name)
    (hfind : v.find name Tree.anyKind = .ok n) :
    Answers v ("vp " ++ name)
      (.message (n.permissions.bits ++ ": " ++ n.permissions.describe)) v := by
  refine answers_pair .viewPermissions "vp" (by decide) (by decide) hsolid fun now => ?_
  show (v, viewPermissions v ⟨"vp", [name]⟩) = _
  have hfirst : (⟨"vp", [name]⟩ : CommandLine).first = name := rfl
  rw [viewPermissions, hfirst, hfind]

/-- What the name finds gets the permissions that are written. -/
theorem answers_changePermissions (hallows : v.allows ⟨.user, .write⟩ = true)
    (hsolid : Solid name) {n : Node} (hfind : v.find name Tree.anyKind = .ok n)
    {permissions : PermissionSet} (hbits : Solid permissions.bits) :
    ∃ v', Answers v ("chp " ++ name ++ " " ++ permissions.bits)
        (.message (quoted name ++ " permissions updated to " ++ permissions.bits ++ ".")) v' ∧
      v.tree.Altered n { n with permissions } v'.tree := by
  obtain ⟨hn, _⟩ := Volume.get?_of_find hfind
  obtain ⟨v', hset, halt⟩ := Volume.setPermissions_of_get? hn permissions
  refine ⟨v', answers_triple .changePermissions "chp" (by decide) (by decide) hsolid hbits
    fun now => ?_, halt⟩
  show changePermissions v ⟨"chp", [name, permissions.bits]⟩ = _
  have hfirst : (⟨"chp", [name, permissions.bits]⟩ : CommandLine).first = name := rfl
  have hsecond : (⟨"chp", [name, permissions.bits]⟩ : CommandLine).second = permissions.bits := rfl
  rw [changePermissions, if_pos hallows, hfirst, hfind]
  dsimp only
  rw [hsecond, PermissionSet.parse_bits]
  dsimp only
  rw [hset]

/-- Permissions that are not written as such are complained about. -/
theorem answers_changePermissions_malformed (hallows : v.allows ⟨.user, .write⟩ = true)
    (hsolid : Solid name) {n : Node} (hfind : v.find name Tree.anyKind = .ok n) {bits : String}
    (hbits : Solid bits) (hparse : ¬ ∃ permissions, PermissionSet.parse bits = .ok permissions) :
    Answers v ("chp " ++ name ++ " " ++ bits)
      (.message (quoted bits ++ " is not a valid permission set. Permission sets are " ++
        "exactly 6 characters of \"0\" or \"1\".")) v := by
  refine answers_triple .changePermissions "chp" (by decide) (by decide) hsolid hbits
    fun now => ?_
  show changePermissions v ⟨"chp", [name, bits]⟩ = _
  have hfirst : (⟨"chp", [name, bits]⟩ : CommandLine).first = name := rfl
  have hsecond : (⟨"chp", [name, bits]⟩ : CommandLine).second = bits := rfl
  rw [changePermissions, if_pos hallows, hfirst, hfind]
  dsimp only
  rw [hsecond]
  cases hread : PermissionSet.parse bits with
  | ok permissions => exact absurd ⟨permissions, hread⟩ hparse
  | error e => rfl

/-- The shell is left. -/
theorem answers_exit (v : Volume) : Answers v "exit" .exit v := by
  intro now
  have hnames : Names "exit" ⟨"exit", []⟩ .exit := ⟨by decide +kernel, by decide +kernel⟩
  rw [hnames.execute_eq, run, hnames.2]
  rfl

end Interpreter

end TermShell
