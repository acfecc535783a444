import TermShell.Proofs.Tree.History
import TermShell.Proofs.Tree.RoundTrip
import TermShell.Proofs.Volume

/-!
# Volumes in use

A volume begins with the standard layout and is then used in any way: directories are made
current, files and directories made and deleted, files written and permissions changed, with
whatever names and numbers. `Used` collects the volumes that come of it.

To the tree of a volume this is one of the histories of `TermShell.Proofs.Tree.History`, with one
difference: a volume looks at a name before it makes anything under it. So all names stay valid,
and that is what the paths of nodes depend on.
-/

namespace TermShell.Volume

open TermShell.Tree (Edit)

variable {v : Volume}

/-! ## Actions -/

/-- What can be done on a volume that may change it. -/
inductive Action where
  | setCurrent (id : Nat)
  | setCurrentPath (path : String)
  | createFile (name : String)
  | createDirectory (name : String)
  | delete (id : Nat)
  | write (id : Nat) (contents : String)
  | setPermissions (id : Nat) (permissions : PermissionSet)

namespace Action

/-- The volume after an action, or why the action is refused. -/
def attempt (v : Volume) : Action → Except VolumeError Volume
  | .setCurrent id => .ok (v.setCurrent id)
  | .setCurrentPath path => .ok (v.setCurrentPath path)
  | .createFile name => v.createFile name
  | .createDirectory name => v.createDirectory name
  | .delete id => (v.delete id).map Prod.fst
  | .write id contents => v.write id contents
  | .setPermissions id permissions => v.setPermissions id permissions

/-- The volume after an action; one that is refused changes nothing. -/
def perform (v : Volume) (a : Action) : Volume := (a.attempt v).toOption.getD v

end Action

/-- What can become of a volume by actions, in any number and order. -/
inductive Used (start : Volume) : Volume → Prop where
  | start : Used start start
  | act {v : Volume} (a : Action) : Used start v → Used start (a.perform v)

/-! ## Actions as operations on the tree -/

theorem isValidName_of_nameFault? {name : String} (h : nameFault? name = none) :
    Path.isValidName name = true := by
  unfold nameFault? at h
  split at h
  · exact absurd h (by simp)
  · split at h
    · assumption
    · exact absurd h (by simp)

theorem tree_adopt (v : Volume) (r : Except TreeError Tree) :
    ((v.adopt r).toOption.getD v).tree = r.toOption.getD v.tree := by
  cases r <;> rfl

theorem tree_setCurrent_eq (v : Volume) (id : Nat) :
    (v.setCurrent id).tree = ((Edit.setCurrent id).perform v.tree).1 := by
  unfold setCurrent
  cases h : v.tree.setCurrent id <;> simp only [Edit.perform, h, tree_withTree]

theorem setCurrentPath_cases (v : Volume) (path : String) :
    v.setCurrentPath path = v ∨ ∃ d : Node, v.setCurrentPath path = v.setCurrent d.id := by
  unfold setCurrentPath
  cases v.resolveDirectory path with
  | none => exact .inl rfl
  | some d => exact .inr ⟨d, rfl⟩

/-- Making something is inserting it, if the tree does not refuse it. -/
theorem tree_adopt_insert (v : Volume) {n : Node} (hid : n.id = v.next) (hnil : n.children = [])
    (hname : Path.isValidName n.fullName = true) :
    ∃ e : Edit, e.Fresh v.tree ∧ e.Proper ∧
      ((v.adopt (v.tree.insert v.tree.current n)).toOption.getD v).tree =
        (e.perform v.tree).1 := by
  refine ⟨.insert v.tree.current n, ⟨hid ▸ v.get?_next, hnil⟩, hname, ?_⟩
  rw [tree_adopt]
  cases h : v.tree.insert v.tree.current n <;> simp only [Edit.perform, h] <;> rfl

/-- **An action is at most one operation on the tree**, and one that inserts a new node under a
valid name if it inserts any. -/
theorem Action.tree_perform (v : Volume) (a : Action) :
    (a.perform v).tree = v.tree ∨ ∃ e : Edit, e.Fresh v.tree ∧ e.Proper ∧
      (a.perform v).tree = (e.perform v.tree).1 := by
  cases a with
  | setCurrent id => exact .inr ⟨.setCurrent id, trivial, trivial, v.tree_setCurrent_eq id⟩
  | setCurrentPath path =>
    simp only [perform, attempt, Except.toOption, Option.getD_some]
    rcases v.setCurrentPath_cases path with hstay | ⟨d, hgo⟩
    · exact .inl (congrArg Volume.tree hstay)
    · exact .inr ⟨.setCurrent d.id, trivial, trivial, hgo ▸ v.tree_setCurrent_eq d.id⟩
  | createFile name =>
    simp only [perform, attempt, Volume.createFile]
    cases hname : nameFault? name with
    | some e => exact .inl rfl
    | none =>
      refine .inr (v.tree_adopt_insert rfl rfl ?_)
      rw [← isValidName_of_nameFault? hname]
      exact congrArg Path.isValidName (FileName.join_split name)
  | createDirectory name =>
    simp only [perform, attempt, Volume.createDirectory]
    cases hname : nameFault? name with
    | some e => exact .inl rfl
    | none =>
      exact .inr (v.tree_adopt_insert rfl rfl (isValidName_of_nameFault? hname))
  | delete id =>
    refine .inr ⟨.remove v.tree.current id, trivial, trivial, ?_⟩
    simp only [perform, attempt, Volume.delete]
    cases h : v.tree.remove v.tree.current id <;> simp only [Edit.perform, h] <;> rfl
  | write id contents =>
    refine .inr ⟨.write id contents, trivial, trivial, ?_⟩
    simp only [perform, attempt, Volume.write, tree_adopt]
    cases h : v.tree.write id contents <;> simp only [Edit.perform, h] <;> rfl
  | setPermissions id permissions =>
    refine .inr ⟨.setPermissions id permissions, trivial, trivial, ?_⟩
    simp only [perform, attempt, Volume.setPermissions, tree_adopt]
    cases h : v.tree.setPermissions id permissions <;> simp only [Edit.perform, h] <;> rfl

/-! ## Every use -/

theorem Action.sound_named (a : Action) (hv : v.tree.Sound) (hnamed : v.tree.Named) :
    (a.perform v).tree.Sound ∧ (a.perform v).tree.Named := by
  rcases a.tree_perform v with hsame | ⟨e, hfresh, hproper, hedit⟩
  · rw [hsame]
    exact ⟨hv, hnamed⟩
  · rw [hedit]
    obtain ⟨hsound, hroot⟩ := hv.perform hfresh
    exact ⟨hsound, (hv.rooted.does_perform hfresh).named hroot hproper hnamed⟩

theorem Used.sound_named (h : Used standard v) : v.tree.Sound ∧ v.tree.Named := by
  induction h with
  | start => exact ⟨Tree.sound_standard, Tree.named_standard⟩
  | act a _ ih => exact a.sound_named ih.1 ih.2

/--
**When the path of a node leads back to it.**

In whatever way a fresh volume has been used, and wherever the walk starts: the path of a
directory leads to that directory exactly if the directory and all that lies above it, the root
excepted, are the first children of their directories to be called by their names, files included.
The path of a file leads to that file exactly if this is so of all that lies above it, and it is
the first of the files in its directory to be called by its full name.
-/
theorem path_leads_back_iff (h : Used standard v) (start : Node) :
    (∀ d, v.tree.directory? d.id = some d →
      (v.tree.findDirectory start (v.tree.path d) = some d ↔
        ∀ a, v.tree.OnWay a d → v.tree.Foremost a)) ∧
    ∀ f, v.tree.get? f.id = some f → f.isFile = true →
      (v.tree.findFile start (v.tree.path f) = some f ↔
        (∀ a, v.tree.OnWay a f → a ≠ f → v.tree.Foremost a) ∧
          v.tree.FirstCalled (v.tree.parentOf f) Node.isFile f.fullName f) := by
  obtain ⟨hsound, hnamed⟩ := h.sound_named
  have hroot := hsound.directory?_root
  exact ⟨fun d hd => hsound.rooted.findDirectory_path_iff hnamed hroot start hd,
    fun f hf hfile => hsound.rooted.findFile_path_iff hnamed hroot start hf hfile⟩

/-- A fresh volume in which a file and then a directory have been made. -/
def shadowed : Volume := (Action.createDirectory "notes").perform
  ((Action.createFile "notes.txt").perform standard)

/-- The file made there. -/
def shadowing : Node := .file 54 Layout.home "notes" (some "txt") "" .userDefault

/-- The directory made there. -/
def shadow : Node := .directory 55 Layout.home "notes" .userDefault

/-- The file takes the directory's place, so that the path of the file leads back to it and the
path of the directory does not. -/
theorem path_leads_back_iff_shadowed :
    Used standard shadowed ∧
      (shadowed.tree.directory? shadow.id = some shadow ∧
        shadowed.tree.findDirectory shadow (shadowed.tree.path shadow) = none ∧
        ¬ ∀ a, shadowed.tree.OnWay a shadow → shadowed.tree.Foremost a) ∧
      shadowed.tree.get? shadowing.id = some shadowing ∧ shadowing.isFile = true ∧
      shadowed.tree.findFile shadow (shadowed.tree.path shadowing) = some shadowing ∧
      (∀ a, shadowed.tree.OnWay a shadowing → a ≠ shadowing → shadowed.tree.Foremost a) ∧
      shadowed.tree.FirstCalled (shadowed.tree.parentOf shadowing) Node.isFile shadowing.fullName
        shadowing := by
  have hused : Used standard shadowed := .act _ (.act _ .start)
  have hdir : shadowed.tree.directory? shadow.id = some shadow :=
    Tree.directory?_eq_some_iff.mpr (by decide +kernel)
  have hlost : shadowed.tree.findDirectory shadow (shadowed.tree.path shadow) = none := by
    decide +kernel
  have hfile : shadowed.tree.get? shadowing.id = some shadowing := by decide +kernel
  have hfound : shadowed.tree.findFile shadow (shadowed.tree.path shadowing) = some shadowing := by
    decide +kernel
  obtain ⟨hdirs, hfiles⟩ := path_leads_back_iff hused shadow
  refine ⟨hused, ⟨hdir, hlost, fun hall => ?_⟩, hfile, rfl, hfound,
    (hfiles shadowing hfile rfl).mp hfound⟩
  have hback := (hdirs shadow hdir).mpr hall
  rw [hlost] at hback
  exact absurd hback (by simp)

end TermShell.Volume
