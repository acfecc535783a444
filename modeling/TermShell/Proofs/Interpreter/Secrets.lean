import TermShell.Interpreter
import TermShell.Proofs.Tree.Places
import TermShell.Proofs.Volume.Overwrite

/-!
# What a line tells of files that may not be read

A line can show what a file holds in three ways: by viewing the file, by showing the help of a
command, which is read from a program file, and by choosing a colour, which is looked up in a
configuration file. A file that the user may not view can only have a say in the last two.

The proof is about one volume and the same volume overwritten, where `Unseen` says that the
overwriting leaves alone what these three ways show. Then every command comes to the same, and
leaves behind what it would have left behind, overwritten.
-/

namespace TermShell

/-- The number stands for a file that the user cannot view: they may not read it, or it is a
program. -/
def Tree.Concealed (t : Tree) (id : Nat) : Prop :=
  ∃ n, t.get? id = some n ∧ n.isFile = true ∧
    (n.permissions.userReads = false ∨ n.permissions.isExecutable = true)

/-- No line shows what has been overwritten. -/
structure Unseen (g : Nat → String → String) (v : Volume) : Prop where
  /-- Files that can be viewed hold what they held. -/
  viewed : ∀ n, v.tree.get? n.id = some n → n.permissions.isExecutable = false →
    n.permissions.userReads = true → (n.overwrite g).text = n.text
  /-- So does the file of the colours. -/
  colors : ∀ n, v.tree.findFile v.tree.rootNode Layout.colorConfigPath = some n →
    (n.overwrite g).text = n.text
  /-- So do the files from which help is read. -/
  programs : ∀ (c : Command) (n : Node),
    v.tree.findFile v.tree.rootNode (Program.path c.programName) = some n →
    (n.overwrite g).text = n.text
  /-- Something new is empty. -/
  new : g v.next "" = ""

variable {g : Nat → String → String} {v : Volume} {l : CommandLine}

theorem Help.page_overwrite (h : Unseen g v) (c : Command) :
    Help.page (v.overwrite g) c = Help.page v c := by
  unfold Help.page
  rw [Volume.tree_overwrite, Tree.rootNode_overwrite, Tree.findFile_overwrite]
  cases hn : v.tree.findFile v.tree.rootNode (Program.path c.programName) with
  | none => rfl
  | some n => exact congrArg Help.pageOf (h.programs c n hn)

theorem Settings.color_overwrite (h : Unseen g v) (name : String) :
    Settings.color (v.overwrite g) name = Settings.color v name := by
  have hconfig : Settings.colorConfig (v.overwrite g) = Settings.colorConfig v := by
    unfold Settings.colorConfig Settings.load
    rw [Volume.tree_overwrite, Tree.rootNode_overwrite, Tree.findFile_overwrite]
    cases hn : v.tree.findFile v.tree.rootNode Layout.colorConfigPath with
    | none => rfl
    | some n => simp only [Option.map_some, h.colors n hn]
  rw [Settings.color, Settings.colors, hconfig, Settings.color, Settings.colors]

namespace Interpreter

open Calendar (Instant)

/-! ## Looking -/

theorem help_overwrite (h : Unseen g v) : help (v.overwrite g) l = help v l := by
  rw [help, Help.topic, Help.page_overwrite h, help, Help.topic]

/-- **Viewing shows nothing of what may not be viewed**: the permissions come first. -/
theorem viewFile_overwrite (h : Unseen g v) : viewFile (v.overwrite g) l = viewFile v l := by
  unfold viewFile
  rw [Volume.resolveFile_overwrite]
  cases hn : v.resolveFile l.first with
  | none => rfl
  | some n =>
    simp only [Option.map_some, Node.permissions_overwrite]
    split
    · rfl
    · rename_i hexec
      split
      · rename_i hreads
        have hget : v.tree.get? n.id = some n := (Tree.of_findFile hn).1
        rw [h.viewed n hget (Bool.eq_false_iff.mpr hexec) hreads]
      · rfl

theorem editFile_overwrite : editFile (v.overwrite g) l = editFile v l := by
  unfold editFile
  rw [Volume.find_overwrite v l.first Node.blind_isFile]
  cases v.find l.first Node.isFile with
  | error e => rfl
  | ok n => simp only [Except.map, Node.permissions_overwrite, Node.id_overwrite]

theorem viewPermissions_overwrite : viewPermissions (v.overwrite g) l = viewPermissions v l := by
  unfold viewPermissions
  rw [Volume.find_overwrite v l.first Node.blind_anyKind]
  cases v.find l.first Tree.anyKind with
  | error e => rfl
  | ok n => simp only [Except.map, Node.permissions_overwrite]

theorem changeColor_overwrite (h : Unseen g v) :
    changeColor (v.overwrite g) l = changeColor v l := by
  rw [changeColor, Settings.color_overwrite h, changeColor]

/-! ## Moving and changing -/

/-- The result with the volume overwritten, and the same outcome. -/
def overwritten (g : Nat → String → String) (r : Volume × Outcome) : Volume × Outcome :=
  (r.1.overwrite g, r.2)

theorem changeDirectory_overwrite :
    changeDirectory (v.overwrite g) l = overwritten g (changeDirectory v l) := by
  unfold changeDirectory
  rw [Volume.resolveDirectory_overwrite]
  cases v.resolveDirectory l.first with
  | none => rfl
  | some d =>
    simp only [Option.map_some, Node.permissions_overwrite, Node.id_overwrite,
      Volume.setCurrent_overwrite, Volume.tree_overwrite, Tree.path_overwrite]
    split <;> rfl

theorem made_overwrite (name : String) (r : Except VolumeError Volume) :
    made (v.overwrite g) name (r.map (Volume.overwrite g)) = overwritten g (made v name r) := by
  cases r <;> rfl

theorem makeFile_overwrite (h : Unseen g v) :
    makeFile (v.overwrite g) l = overwritten g (makeFile v l) := by
  unfold makeFile
  rw [Volume.allows_overwrite, Volume.createFile_overwrite v h.new, made_overwrite]
  split <;> rfl

theorem makeDirectory_overwrite :
    makeDirectory (v.overwrite g) l = overwritten g (makeDirectory v l) := by
  unfold makeDirectory
  rw [Volume.allows_overwrite, Volume.createDirectory_overwrite, made_overwrite]
  split <;> rfl

theorem changePermissions_overwrite :
    changePermissions (v.overwrite g) l = overwritten g (changePermissions v l) := by
  unfold changePermissions
  rw [Volume.allows_overwrite, Volume.find_overwrite v l.first Node.blind_anyKind]
  split
  · cases v.find l.first Tree.anyKind with
    | error e => rfl
    | ok n =>
      simp only [Except.map, Node.id_overwrite]
      cases PermissionSet.parse l.second with
      | error e => rfl
      | ok permissions =>
        simp only [Volume.setPermissions_overwrite]
        cases v.setPermissions n.id permissions <;> rfl
  · rfl

theorem deleteChild_overwrite (name : String) (id : Nat) :
    deleteChild (v.overwrite g) name id = overwritten g (deleteChild v name id) := by
  unfold deleteChild
  rw [Volume.delete_overwrite]
  cases v.delete id <;> rfl

theorem deleteFile_overwrite :
    deleteFile (v.overwrite g) l = overwritten g (deleteFile v l) := by
  unfold deleteFile
  rw [Volume.allows_overwrite, Volume.find_overwrite v l.first Node.blind_isFile]
  split
  · cases v.find l.first Node.isFile with
    | error e => cases e <;> rfl
    | ok n => simp only [Except.map, Node.id_overwrite, deleteChild_overwrite]
  · rfl

theorem deleteDirectory_overwrite :
    deleteDirectory (v.overwrite g) l = overwritten g (deleteDirectory v l) := by
  unfold deleteDirectory
  rw [Volume.allows_overwrite, Volume.find_overwrite v l.first Node.blind_isDirectory]
  split
  · cases v.find l.first Node.isDirectory with
    | error e => cases e <;> rfl
    | ok n =>
      simp only [Except.map, Node.id_overwrite, Node.children_overwrite, deleteChild_overwrite]
      split <;> rfl
  · rfl

/-! ## Lines -/

/-- **Every command comes to the same**, and leaves the same behind, overwritten. -/
theorem perform_overwrite (now : Instant) (h : Unseen g v) (c : Command) :
    perform now (v.overwrite g) c l = overwritten g (perform now v c l) := by
  cases c with
  | help | commands => simp only [perform, help_overwrite h, overwritten]
  | color => simp only [perform, changeColor_overwrite h, overwritten]
  | changeDirectory => simp only [perform, changeDirectory_overwrite]
  | viewFile => simp only [perform, viewFile_overwrite h, overwritten]
  | makeFile => simp only [perform, makeFile_overwrite h]
  | makeDirectory => simp only [perform, makeDirectory_overwrite]
  | editFile => simp only [perform, editFile_overwrite, overwritten]
  | viewPermissions => simp only [perform, viewPermissions_overwrite, overwritten]
  | changePermissions => simp only [perform, changePermissions_overwrite]
  | deleteFile => simp only [perform, deleteFile_overwrite]
  | deleteDirectory => simp only [perform, deleteDirectory_overwrite]
  | exit | save | listDirectory | listHardware | date | time | now | network => rfl

theorem execute_overwrite (now : Instant) (h : Unseen g v) (line : String) :
    execute now (v.overwrite g) line = overwritten g (execute now v line) := by
  unfold execute
  cases CommandLine.parse line with
  | none => rfl
  | some l =>
    dsimp only [run]
    cases l.command? with
    | none => rfl
    | some c =>
      dsimp only
      rw [Help.page_overwrite h, perform_overwrite now h]
      split <;> rfl

/-! ## Two volumes -/

/-- **Of two volumes whose differences are concealed, the second is the first overwritten, and no
line shows it.** -/
theorem exists_unseen {secret : Nat → Prop} {v v' : Volume}
    (hsecret : ∀ id, secret id → v.tree.Concealed id) (hsame : v.tree.SameBut secret v'.tree)
    (hnext : v'.next = v.next)
    (hcolors : v'.tree.read? Layout.colorConfigPath = v.tree.read? Layout.colorConfigPath)
    (hprograms : ∀ c : Command,
      v'.tree.read? (Program.path c.programName) = v.tree.read? (Program.path c.programName)) :
    ∃ g, v' = v.overwrite g ∧ Unseen g v ∧ ∀ id, ¬ secret id → ∀ s, g id s = s := by
  obtain ⟨g, htree, hg⟩ := hsame.exists_overwrite
  obtain rfl : v' = v.overwrite g := Volume.ext htree hnext
  refine ⟨g, rfl, ⟨fun n hn hexec hreads => ?_, fun n hn => ?_, fun c n hn => ?_, ?_⟩, hg⟩
  · have hopen : ¬ secret n.id := by
      intro hs
      obtain ⟨m, hm, _, hno | hprogram⟩ := hsecret n.id hs
      · rw [Option.some.inj (hm.symm.trans hn), hreads] at hno
        exact absurd hno (by simp)
      · rw [Option.some.inj (hm.symm.trans hn), hexec] at hprogram
        exact absurd hprogram (by simp)
    rw [n.overwrite_of_text (hg n.id hopen n.text)]
  · exact Tree.read?_overwrite_iff.mp hcolors n hn
  · exact Tree.read?_overwrite_iff.mp (hprograms c) n hn
  · refine hg v.next (fun hs => ?_) ""
    obtain ⟨m, hm, _⟩ := hsecret v.next hs
    exact absurd (v.get?_next.symm.trans hm) (by simp)

/--
**What may not be read has no influence on the interpreter.**

Let two volumes differ in nothing but what some files hold, each a file that the user may not
read or that is executable, and let the file of the colours and the program files of the commands
hold the same in both. Then every line has the same outcome on both, and the volumes after it
again differ in nothing but what those files hold.
-/
theorem execute_tells_no_secret (now : Instant) {secret : Nat → Prop} {v v' : Volume}
    (hsecret : ∀ id, secret id → v.tree.Concealed id) (hsame : v.tree.SameBut secret v'.tree)
    (hnext : v'.next = v.next)
    (hcolors : v'.tree.read? Layout.colorConfigPath = v.tree.read? Layout.colorConfigPath)
    (hprograms : ∀ c : Command,
      v'.tree.read? (Program.path c.programName) = v.tree.read? (Program.path c.programName))
    (line : String) :
    (execute now v' line).2 = (execute now v line).2 ∧
      (execute now v line).1.tree.SameBut secret (execute now v' line).1.tree ∧
      (execute now v' line).1.next = (execute now v line).1.next := by
  obtain ⟨g, rfl, hunseen, hg⟩ := exists_unseen hsecret hsame hnext hcolors hprograms
  rw [execute_overwrite now hunseen line]
  exact ⟨rfl, Tree.sameBut_overwrite _ hg, rfl⟩

/-- The number of the description of the ethernet, which only an administrator may read. -/
def ethernet : Nat := 21

/-- A fresh system with another description of the ethernet. -/
def redescribed : Volume := Volume.standard.overwrite fun id s => if id = ethernet then "" else s

/-- The user cannot tell the two by viewing the description. -/
theorem execute_tells_no_secret_of_ethernet :
    (∀ id, id = ethernet → Volume.standard.tree.Concealed id) ∧
      Volume.standard.tree.SameBut (· = ethernet) redescribed.tree ∧
      redescribed.tree ≠ Volume.standard.tree ∧
      (execute ⟨0, 0⟩ redescribed "vw /system/network/ethernet").2 =
        (execute ⟨0, 0⟩ Volume.standard "vw /system/network/ethernet").2 ∧
      (execute ⟨0, 0⟩ Volume.standard "vw /system/network/ethernet").1.tree.SameBut (· = ethernet)
        (execute ⟨0, 0⟩ redescribed "vw /system/network/ethernet").1.tree ∧
      (execute ⟨0, 0⟩ redescribed "vw /system/network/ethernet").1.next =
        (execute ⟨0, 0⟩ Volume.standard "vw /system/network/ethernet").1.next := by
  have hconcealed : ∀ id, id = ethernet → Volume.standard.tree.Concealed id := by
    rintro id rfl
    exact ⟨(Volume.standard.tree.get? ethernet).getD (Node.root 0 .none), by decide +kernel⟩
  have hsame : Volume.standard.tree.SameBut (· = ethernet) redescribed.tree :=
    Tree.sameBut_overwrite _ fun id hid s => if_neg hid
  -- the description is not among the files that are shown by other commands
  have hspared : ∀ n : Node, n.id ≠ ethernet →
      (n.overwrite fun id s => if id = ethernet then "" else s).text = n.text := fun n hn =>
    congrArg Node.text (n.overwrite_of_text (if_neg hn))
  have hcolors : ∀ n ∈ Volume.standard.tree.findFile Volume.standard.tree.rootNode
      Layout.colorConfigPath, n.id ≠ ethernet := by
    decide +kernel
  have hprograms : ∀ c ∈ Command.all, ∀ n ∈ Volume.standard.tree.findFile
      Volume.standard.tree.rootNode (Program.path c.programName), n.id ≠ ethernet := by
    decide +kernel
  exact ⟨hconcealed, hsame, by decide +kernel,
    execute_tells_no_secret ⟨0, 0⟩ hconcealed hsame rfl
      (Tree.read?_overwrite_iff.mpr fun n hn => hspared n (hcolors n hn))
      (fun c => Tree.read?_overwrite_iff.mpr fun n hn => hspared n (hprograms c c.mem_all n hn))
      "vw /system/network/ethernet"⟩

end Interpreter

end TermShell
