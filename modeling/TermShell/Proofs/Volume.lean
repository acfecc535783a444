import TermShell.Proofs.Path
import TermShell.Proofs.Tree.Places
import TermShell.Volume

/-!
# What a volume does

One lemma for each thing that can be done on a volume, in terms of what it does to the tree.
All of them are about a sound tree: there the current directory, whose permissions decide, is
the directory that its number stands for, at which the change is made. In a tree that is not
sound the two may differ, since the root stands in for a current directory that is gone.
-/

namespace TermShell

/-- A removal takes the current directory away only if it lies below what is removed. -/
theorem Tree.Removed.current_eq {t t' : Tree} {p id : Nat} (h : t.Removed p id t') (ht : t.Sound)
    (hc : ¬ t.arena.Leads id t.current) : t'.current = t.current := by
  obtain ⟨cs, hcs⟩ := h.exists_of_get? ht.get?_current hc
  exact h.stayed ⟨_, hcs⟩

namespace Volume

variable {v v' : Volume}

@[simp] theorem tree_withTree (v : Volume) (t : Tree) : (v.withTree t).tree = t := rfl

/-! ## Places -/

/-- A name that is not empty finds what the current directory has under it. -/
theorem find_eq_ok_iff {name : String} {wanted : Node → Bool} {n : Node} :
    v.find name wanted = .ok n ↔
      name ≠ "" ∧ v.tree.findChild v.tree.currentDirectory name wanted = some n := by
  by_cases hname : name = ""
  · simp [find, hname]
  · rw [find, if_neg (by simpa using hname), and_iff_right hname]
    cases v.tree.findChild v.tree.currentDirectory name wanted with
    | none => simp
    | some m => simp

/-- A name that is not empty finds nothing only where no child answers to it. -/
theorem find_eq_notFound_iff {name : String} (hname : name ≠ "") {wanted : Node → Bool} :
    v.find name wanted = .error (.notFound name) ↔
      v.tree.findChild v.tree.currentDirectory name wanted = none := by
  rw [find, if_neg (by simpa using hname)]
  cases v.tree.findChild v.tree.currentDirectory name wanted with
  | none => simp
  | some m => simp

/-- What a name finds is there, and is of the wanted kind. -/
theorem get?_of_find {name : String} {wanted : Node → Bool} {n : Node}
    (h : v.find name wanted = .ok n) : v.tree.get? n.id = some n ∧ wanted n = true := by
  obtain ⟨hn, _, hw, _⟩ := Tree.of_findChild (find_eq_ok_iff.mp h).2
  exact ⟨hn, hw⟩

/-- The child that a name finds is a child of the current directory, of the wanted kind. -/
theorem of_find (hv : v.tree.Sound) {name : String} {wanted : Node → Bool} {n : Node}
    (h : v.find name wanted = .ok n) :
    v.tree.get? n.id = some n ∧ v.tree.arena.Lists v.tree.current n.id ∧ wanted n = true := by
  obtain ⟨hn, hc, hw, _⟩ := Tree.of_findChild (find_eq_ok_iff.mp h).2
  exact ⟨hn, ⟨_, hv.get?_current, hc⟩, hw⟩

theorem find_of_findChild {name : String} {wanted : Node → Bool} {d n : Node} (hname : name ≠ "")
    (hd : v.tree.directory? v.tree.current = some d)
    (hfind : v.tree.findChild d name wanted = some n) : v.find name wanted = .ok n :=
  find_eq_ok_iff.mpr ⟨hname, by rw [Tree.currentDirectory_of_directory? hd, hfind]⟩

/-- **A file that a name finds is the one that the name means as a path**, if there is no slash in
it. This holds of any tree, as only a directory has children. -/
theorem resolveFile_of_find {name : String} {f : Node} (hslash : Path.separator ∉ name.toList)
    (h : v.find name Node.isFile = .ok f) : v.resolveFile name = some f := by
  obtain ⟨hname, hfind⟩ := find_eq_ok_iff.mp h
  obtain ⟨hcomponents, habsolute⟩ := Path.components_of_not_mem hname hslash
  have hdir := Node.isDirectory_of_mem_children (Tree.of_findChild hfind).2.1
  rw [resolveFile, Tree.findFile, hcomponents, Tree.origin, habsolute]
  simp only [List.getLast?_singleton, List.dropLast_singleton, Bool.false_eq_true, if_false,
    Tree.walk, hdir, if_true, List.foldlM_nil]
  exact hfind

/-- A path typed by the user, if it means anything, means a directory of the tree. -/
theorem directory?_resolveDirectory (hv : v.tree.Sound) {path : String} {d : Node}
    (h : v.resolveDirectory path = some d) : v.tree.directory? d.id = some d := by
  unfold resolveDirectory at h
  rcases Option.or_eq_some_iff.mp h with h | ⟨_, h⟩
  · exact hv.directory?_resolveDirectory h
  · split at h
    · exact hv.directory?_findDirectory hv.directory?_rootNode h
    · exact absurd h (by simp)

theorem tree_setCurrent {id : Nat} {d : Node} (hd : v.tree.directory? id = some d) :
    (v.setCurrent id).tree = { v.tree with current := id } := by
  unfold setCurrent
  rcases Tree.setCurrent_cases v.tree id with ⟨hnone, _⟩ | ⟨_, _, he⟩
  · exact absurd (hd.symm.trans hnone) (by simp)
  · rw [he]
    rfl

/-! ## Changes -/

theorem adopt_eq_ok {r : Except TreeError Tree} (h : v.adopt r = .ok v') : r = .ok v'.tree := by
  cases r with
  | error e => exact absurd h (by simp [adopt])
  | ok t =>
    obtain rfl := Except.ok.inj h
    rfl

/-- What is made under a name: something new and empty that the user may read and write. -/
structure Makes (v : Volume) (name : String) (n : Node) : Prop where
  id : n.id = v.next
  fullName : n.fullName = name
  permissions : n.permissions.bits = "000011"
  text : n.text = ""

/-- The six digits leave no choice. -/
theorem Makes.eq_userDefault {name : String} {n : Node} (h : v.Makes name n) :
    n.permissions = .userDefault := by
  have hread := PermissionSet.parse_bits n.permissions
  have hdefault : PermissionSet.parse "000011" = .ok .userDefault := by decide
  rw [h.permissions, hdefault] at hread
  exact (Except.ok.inj hread).symm

theorem Makes.userWrites {name : String} {n : Node} (h : v.Makes name n) :
    n.permissions.userWrites = true := by
  rw [h.eq_userDefault]
  rfl

theorem Makes.userReads {name : String} {n : Node} (h : v.Makes name n) :
    n.permissions.userReads = true := by
  rw [h.eq_userDefault]
  rfl

/-- A current number that stands for a directory is all that putting something there takes. -/
theorem adopt_insert {d : Node} (hd : v.tree.directory? v.tree.current = some d) (n : Node) :
    ∃ v', v.adopt (v.tree.insert v.tree.current n) = .ok v' := by
  obtain ⟨hget, hdir⟩ := Tree.directory?_eq_some_iff.mp hd
  rcases Tree.insert_cases v.tree v.tree.current n with ⟨hnone, _⟩ | ⟨f, hf, hfile, _⟩ | ⟨_, _, he⟩
  · exact absurd (hget.symm.trans hnone) (by simp)
  · rw [Option.some.inj (hf.symm.trans hget), hdir] at hfile
    exact absurd hfile (by simp)
  · exact ⟨_, by rw [he]; rfl⟩

/-- **Making something appends it to the current directory.** -/
theorem appended_of_insert {n : Node} (hn : n.id = v.next) (hnil : n.children = [])
    (h : v.adopt (v.tree.insert v.tree.current n) = .ok v') :
    v.tree.Appended v.tree.current { n with parent := some v.tree.current, isRoot := false }
      v'.tree :=
  Tree.appended_of_insert (adopt_eq_ok h) (hn ▸ v.get?_next) hnil

/-- The file that is made for a name. -/
theorem appended_of_createFile {name : String} (h : v.createFile name = .ok v') :
    v.tree.Appended v.tree.current (Node.file v.next v.tree.current (FileName.split name).1
      (FileName.split name).2 "" .userDefault) v'.tree := by
  unfold createFile at h
  split at h
  · exact absurd h (by simp)
  · exact appended_of_insert rfl rfl h

theorem of_createFile {name : String} (h : v.createFile name = .ok v') :
    ∃ n, v.Makes name n ∧ n.isFile = true ∧ v.tree.Appended v.tree.current n v'.tree := by
  refine ⟨_, ⟨rfl, ?_, rfl, rfl⟩, rfl, appended_of_createFile h⟩
  exact FileName.join_split name

/-- A volume finds no fault with a valid name. -/
theorem nameFault?_of_valid {name : String} (hname : Path.isValidName name = true) :
    nameFault? name = none := by
  have hempty : name ≠ "" := (Path.isValidName_iff.mp hname).1
  simp [nameFault?, hname, hempty]

/-- A file is made under any valid name. -/
theorem createFile_of_valid {d : Node} (hd : v.tree.directory? v.tree.current = some d)
    {name : String} (hname : Path.isValidName name = true) :
    ∃ v', v.createFile name = .ok v' := by
  rw [createFile, nameFault?_of_valid hname]
  exact adopt_insert hd _

/-- A directory is made under any valid name. -/
theorem createDirectory_of_valid {d : Node} (hd : v.tree.directory? v.tree.current = some d)
    {name : String} (hname : Path.isValidName name = true) :
    ∃ v', v.createDirectory name = .ok v' := by
  rw [createDirectory, nameFault?_of_valid hname]
  exact adopt_insert hd _

theorem of_createDirectory {name : String} (h : v.createDirectory name = .ok v') :
    ∃ n, v.Makes name n ∧ n.isDirectory = true ∧ v.tree.Appended v.tree.current n v'.tree := by
  unfold createDirectory at h
  split at h
  · exact absurd h (by simp)
  · exact ⟨_, ⟨rfl, rfl, rfl, rfl⟩, rfl, appended_of_insert rfl rfl h⟩

/-- **Deleting a child of the current directory works**, and leaves the user where they are. -/
theorem delete_of_lists (hv : v.tree.Sound) {id : Nat}
    (hl : v.tree.arena.Lists v.tree.current id) :
    ∃ v', v.delete id = .ok (v', true) ∧ v.tree.Removed v.tree.current id v'.tree ∧
      v'.tree.current = v.tree.current := by
  rcases Tree.remove_cases v.tree v.tree.current id with
    ⟨hroot, _⟩ | ⟨hnone, _⟩ | ⟨f, hf, hdir, _⟩ | ⟨hnot, _⟩ | ⟨d, _, _, _, he⟩
  · -- the root is listed nowhere
    exact absurd (hroot ▸ hl) (hv.rooted.root_not_listed _)
  · exact absurd (hv.get?_current.symm.trans hnone) (by simp)
  · rw [Option.some.inj (hf.symm.trans hv.get?_current)] at hdir
    exact absurd ((Tree.directory?_eq_some_iff.mp hv.directory?_current).2.symm.trans hdir)
      (by simp)
  · exact absurd hl hnot
  · have hrem := hv.rooted.removed_of_remove he
    -- what is listed here does not lead back here
    refine ⟨_, by rw [delete, he], hrem, ?_⟩
    exact hrem.current_eq hv (hv.rooted.not_leads_up hl)

/-- Giving a node of the tree other permissions works. -/
theorem setPermissions_of_get? {n : Node} (hn : v.tree.get? n.id = some n)
    (permissions : PermissionSet) :
    ∃ v', v.setPermissions n.id permissions = .ok v' ∧
      v.tree.Altered n { n with permissions } v'.tree := by
  rcases Tree.setPermissions_cases v.tree n.id permissions with ⟨hnone, _⟩ | ⟨m, t', hm, he, halt⟩
  · exact absurd (hn.symm.trans hnone) (by simp)
  · obtain rfl := Option.some.inj (hm.symm.trans hn)
    exact ⟨_, by rw [setPermissions, he]; rfl, halt⟩

/-- Writing to a file of the tree works. -/
theorem write_of_get? {n : Node} (hn : v.tree.get? n.id = some n) (hf : n.isFile = true)
    (contents : String) :
    ∃ v', v.write n.id contents = .ok v' ∧
      v.tree.Altered n (n.withContents contents) v'.tree := by
  rcases Tree.write_cases v.tree n.id contents with
    ⟨hnone, _⟩ | ⟨d, hd, hdir, _⟩ | ⟨m, t', hm, _, he, halt⟩
  · exact absurd (hn.symm.trans hnone) (by simp)
  · rw [Option.some.inj (hd.symm.trans hn), hf] at hdir
    exact absurd hdir (by simp)
  · obtain rfl := Option.some.inj (hm.symm.trans hn)
    exact ⟨_, by rw [write, he]; rfl, halt⟩

end Volume

end TermShell
