import TermShell.Proofs.Interpreter.Lines
import TermShell.Proofs.Tree.Growth
import TermShell.Proofs.Volume.Resolve

/-!
# Making and deleting are inverse

What has just been made is the last child of the current directory and has nothing below it. To
delete it leaves the tree that there was before, with all nodes, the order of all children and the
current directory (`Tree.Appended.undone`).

That a line deletes just this is a matter of names. A lookup takes the first child of the wanted
kind, and what has been made last is that only if no sibling of the kind is called so. The commands
want different kinds: to delete a file, siblings that are directories do not matter, nor files to
delete a directory; but on the way into a directory nothing else may be called like it, and its
name must not be one of the shorthands for paths.
-/

namespace TermShell

namespace Tree

variable {t t' t'' : Tree}

/-- Two trees are equal if their numbers stand for the same. -/
theorem ext_get? (hroot : t'.root = t.root) (hcurrent : t'.current = t.current)
    (hget : ∀ id, t'.get? id = t.get? id) : t' = t := by
  rcases t with ⟨root, current, arena⟩
  rcases t' with ⟨root', current', arena'⟩
  obtain rfl : root' = root := hroot
  obtain rfl : current' = current := hcurrent
  obtain rfl : arena' = arena := Arena.ext_get? hget
  rfl

/-- **To remove what has been appended leaves the tree as it was.** -/
theorem Appended.undone {p : Nat} {n : Node} (h : t.Appended p n t') (ht : t.Rooted)
    (h' : t'.Removed p n.id t'') (hcurrent : t''.current = t'.current) : t'' = t := by
  refine ext_get? (h'.root.trans h.root) (hcurrent.trans h.current) fun x => ?_
  by_cases hxn : x = n.id
  · subst hxn
    rw [h'.gone _ .refl, h.fresh]
  have hnot : ¬ t'.arena.Leads n.id x := fun hx =>
    hxn (alone_of_childless h.new h.childless hx)
  by_cases hxp : x = p
  · -- the new number is at the end of the list, and so it is what is taken off
    subst hxp
    obtain ⟨d, hd, hd'⟩ := h.into
    obtain ⟨hget, hdir⟩ := directory?_eq_some_iff.mp hd
    have hold := h.not_mem_children ht hget
    obtain ⟨e, he, he'⟩ := h'.out
    obtain rfl := Option.some.inj ((directory?_eq_some_iff.mp he).1.symm.trans hd')
    rw [he', hget, Node.withChildren_withChildren, Node.children_withChildren _ hdir,
      List.erase_append_right _ hold, List.erase_cons_head, List.append_nil,
      Node.withChildren_children]
  · rw [h'.others x hnot hxp, h.others x hxn hxp]

end Tree

namespace Volume

variable {v v' : Volume} {name : String} {n : Node}

/-- What may be done in the current directory may be done there when something has been made. -/
theorem allows_of_appended (hv : v.tree.Sound) (h : v.tree.Appended v.tree.current n v'.tree)
    (p : Permission) : v'.allows p = v.allows p := by
  obtain ⟨d', hd', hpermissions, _⟩ := h.childrenOf hv.rooted hv.directory?_current
  have hhere := Tree.currentDirectory_of_directory? (h.current.symm ▸ hd')
  rw [allows, allows, hhere, hpermissions]

/-- **What has been made is what its name finds**, if nothing else of the kind is called so. -/
theorem find_of_appended (hv : v.tree.Sound) (h : v.tree.Appended v.tree.current n v'.tree)
    (hname : n.fullName = name) (hempty : name ≠ "") {wanted : Node → Bool}
    (hwanted : wanted n = true)
    (hnone : ∀ m ∈ v.tree.childrenOf v.tree.currentDirectory, wanted m = true → ¬ m.Called name) :
    v'.find name wanted = .ok n := by
  obtain ⟨d', hd', _, _, hchildren⟩ := h.childrenOf hv.rooted hv.directory?_current
  exact find_of_findChild hempty (h.current.symm ▸ hd')
    (Tree.findChild_last hchildren hwanted (.inl hname) hnone)

/-- The name of a directory that has been made is a path to it, if nothing else is called so. -/
theorem resolveDirectory_of_appended (hv : v.tree.Sound)
    (h : v.tree.Appended v.tree.current n v'.tree) (hname : n.fullName = name)
    (hdir : n.isDirectory = true) (hvalid : Path.isValidName name = true)
    (hclassify : Path.classify name = .relative [name])
    (hnone : ∀ m ∈ v.tree.childrenOf v.tree.currentDirectory, ¬ m.Called name) :
    v'.resolveDirectory name = some n := by
  obtain ⟨hempty, hdot, hdots, _⟩ := Path.isValidName_iff.mp hvalid
  have hfind : v'.find name Tree.anyKind = .ok n :=
    find_of_appended hv h hname hempty rfl fun m hm _ => hnone m hm
  have hhere := (h.sound hv).directory?_currentDirectory
  rw [v'.resolveDirectory_of_relative hclassify, Tree.walk,
    if_pos (Tree.directory?_eq_some_iff.mp hhere).2, List.foldlM_cons,
    Tree.enter_of_name hdot hdots, (find_eq_ok_iff.mp hfind).2, Option.filter_some, if_pos hdir]
  rfl

end Volume

namespace Interpreter

open Calendar (Instant)

variable {v v' : Volume} {name : String} {n : Node}

/-! ## One step down and one up -/

/-- **The user goes into a new directory and comes back**: the way down is one name longer, and
the tree is afterwards what it was before. -/
theorem answers_thereAndBack (hv : v.tree.Sound) (happ : v.tree.Appended v.tree.current n v'.tree)
    (hmakes : v.Makes name n) (hdir : n.isDirectory = true)
    (hreads : v.tree.currentDirectory.permissions.userReads = true) (hsolid : Solid name)
    (hresolve : v'.resolveDirectory name = some n) :
    ∃ v₁ v₂, Answers v' ("cd " ++ name) .silent v₁ ∧
      v₁.tree.names v₁.tree.currentDirectory = v.tree.names v.tree.currentDirectory ++ [name] ∧
      Answers v₁ "cd .." .silent v₂ ∧ v₂.tree = v'.tree := by
  have hv' := happ.sound hv
  have hn : v'.tree.directory? n.id = some n :=
    Tree.directory?_eq_some_iff.mpr ⟨happ.new, hdir⟩
  obtain ⟨hnames, hparent, hpermissions⟩ :=
    happ.names_parentOf hv.rooted hv.directory?_current
  -- down
  obtain ⟨v₁, hdown, htree₁⟩ := answers_changeDirectory hv' hsolid hresolve hmakes.userReads
  have hv₁ : v₁.tree.Sound := htree₁ ▸ hv'.withCurrent hn
  have hhere : v₁.tree.currentDirectory = n := by
    refine Tree.currentDirectory_of_directory? ?_
    rw [htree₁]
    exact hn
  have hlonger : v₁.tree.names n = v.tree.names v.tree.currentDirectory ++ [name] := by
    rw [htree₁, Tree.names_withCurrent, hnames, hmakes.fullName]
  -- and up
  have hup : v₁.resolveDirectory ".." = some (v'.tree.parentOf n) := by
    have hclassify : Path.classify ".." = .parent := by decide +kernel
    rw [Volume.resolveDirectory, Tree.resolveDirectory, hclassify, Tree.aim, hhere, htree₁]
    rfl
  obtain ⟨v₂, hback, htree₂⟩ := answers_changeDirectory hv₁ (by decide) hup
    ((congrArg PermissionSet.userReads hpermissions).trans hreads)
  refine ⟨v₁, v₂, hdown, hhere.symm ▸ hlonger, hback, ?_⟩
  have hid := Tree.id_of_get? (Tree.directory?_eq_some_iff.mp hparent).1
  rw [htree₂, htree₁, hid, ← happ.current]

/-! ## Making and deleting -/

/-- A line that deletes what the name finds undoes what has been made under the name. -/
theorem answers_undo (hv : v.tree.Sound) (happ : v.tree.Appended v.tree.current n v'.tree)
    (hmakes : v.Makes name n) (hempty : name ≠ "") {wanted : Node → Bool}
    (hwanted : wanted n = true)
    (hnone : ∀ m ∈ v.tree.childrenOf v.tree.currentDirectory, wanted m = true → ¬ m.Called name)
    {line : String} {o : Outcome}
    (hdelete : v'.find name wanted = .ok n → ∃ v'', Answers v' line o v'' ∧
      v'.tree.Removed v'.tree.current n.id v''.tree ∧ v''.tree.current = v'.tree.current) :
    ∃ v'', Answers v' line o v'' ∧ v''.tree = v.tree := by
  obtain ⟨v'', hline, hrem, hcurrent⟩ :=
    hdelete (Volume.find_of_appended hv happ hmakes.fullName hempty hwanted hnone)
  exact ⟨v'', hline, happ.undone hv.rooted (happ.current ▸ hrem) hcurrent⟩

/--
**To delete undoes to make.**

In an intact tree let `d` be the current directory, in which the user may read and write, and let a
valid name be one word. If no file in `d` has this full or bare name, a file that is made under the
name and deleted under it leaves the same tree: the same nodes, in the same order, and the same
current directory. So does a directory, if none in `d` has this name. If nothing in `d` has it, and
it is none of the shorthands `root` and `~`, the user can go into the new directory in between,
where the path is longer by the name, and come back.
-/
theorem delete_undoes_make (ht : v.tree.Intact) {d : Node}
    (hd : v.tree.directory? v.tree.current = some d) (hreads : d.permissions.userReads = true)
    (hwrites : d.permissions.userWrites = true) (hname : Path.isValidName name = true)
    (hblank : ∀ c ∈ name.toList, Text.isBlank c = false) :
    ((∀ m ∈ v.tree.childrenOf d, m.isFile = true → ¬ m.Called name) →
      ∃ v₁ v₂, Answers v ("mf " ++ name) .silent v₁ ∧
        Answers v₁ ("df " ++ name) (.message (quoted name ++ " deleted.")) v₂ ∧
        v₂.tree = v.tree) ∧
    ((∀ m ∈ v.tree.childrenOf d, m.isDirectory = true → m.name ≠ name) →
      ∃ v₁ v₂, Answers v ("md " ++ name) .silent v₁ ∧
        Answers v₁ ("dd " ++ name) (.message (quoted name ++ " deleted.")) v₂ ∧
        v₂.tree = v.tree) ∧
    ((∀ m ∈ v.tree.childrenOf d, ¬ m.Called name) → Text.foldCase name ≠ "root" →
      Text.foldCase name ≠ "~" →
      ∃ v₁ v₂ v₃ v₄, Answers v ("md " ++ name) .silent v₁ ∧
        Answers v₁ ("cd " ++ name) .silent v₂ ∧
        v.tree.currentPath = Tree.spell (v.tree.names d) ∧
        v₂.tree.currentPath = Tree.spell (v.tree.names d ++ [name]) ∧
        Answers v₂ "cd .." .silent v₃ ∧ v₃.tree.current = v.tree.current ∧
        Answers v₃ ("dd " ++ name) (.message (quoted name ++ " deleted.")) v₄ ∧
        v₄.tree = v.tree) := by
  have hv := Tree.sound_of_current ht ⟨d, hd⟩
  obtain rfl : v.tree.currentDirectory = d := Tree.currentDirectory_of_directory? hd
  have hsolid : Solid name := ⟨(Path.isValidName_iff.mp hname).1, hblank⟩
  refine ⟨fun hnone => ?_, fun hnone => ?_, fun hnone hroot hhome => ?_⟩
  · obtain ⟨v₁, n, hmake, hmakes, hfile, happ⟩ := answers_makeFile hv hwrites hname hsolid
    have hallows := (Volume.allows_of_appended hv happ ⟨.user, .write⟩).trans hwrites
    obtain ⟨v₂, hdelete, hsame⟩ := answers_undo hv happ hmakes hsolid.1 hfile hnone
      (answers_deleteFile (happ.sound hv) hallows hsolid)
    exact ⟨v₁, v₂, hmake, hdelete, hsame⟩
  · obtain ⟨v₁, n, hmake, hmakes, hdir, happ⟩ := answers_makeDirectory hv hwrites hname hsolid
    have hallows := (Volume.allows_of_appended hv happ ⟨.user, .write⟩).trans hwrites
    have hnone' : ∀ m ∈ v.tree.childrenOf v.tree.currentDirectory,
        m.isDirectory = true → ¬ m.Called name := fun m hm hmdir =>
      mt (Node.called_iff_of_isDirectory hmdir).mp (hnone m hm hmdir)
    obtain ⟨v₂, hdelete, hsame⟩ := answers_undo hv happ hmakes hsolid.1 hdir hnone' fun hfind =>
      answers_deleteDirectory (happ.sound hv) hallows hsolid hfind happ.childless
    exact ⟨v₁, v₂, hmake, hdelete, hsame⟩
  · obtain ⟨v₁, n, hmake, hmakes, hdir, happ⟩ := answers_makeDirectory hv hwrites hname hsolid
    have hresolve := Volume.resolveDirectory_of_appended hv happ hmakes.fullName hdir hname
      (Path.classify_of_name hname hblank hroot hhome) hnone
    obtain ⟨v₂, v₃, hdown, hnames, hback, htree⟩ :=
      answers_thereAndBack hv happ hmakes hdir hreads hsolid hresolve
    -- back at the old place the tree is the one in which the directory has just been made
    rw [← htree] at happ
    have hallows := (Volume.allows_of_appended hv happ ⟨.user, .write⟩).trans hwrites
    obtain ⟨v₄, hdelete, hsame⟩ := answers_undo hv happ hmakes hsolid.1 hdir
      (fun m hm _ => hnone m hm) fun hfind =>
        answers_deleteDirectory (happ.sound hv) hallows hsolid hfind happ.childless
    exact ⟨v₁, v₂, v₃, v₄, hmake, hdown, rfl, congrArg Tree.spell hnames, hback, happ.current,
      hdelete, hsame⟩

/-- Three dots are a name like any other; a file under it has two dots for its base name. -/
theorem delete_undoes_make_of_dots :
    ∃ d, Volume.standard.tree.Intact ∧
      Volume.standard.tree.directory? Volume.standard.tree.current = some d ∧
      d.permissions.userReads = true ∧ d.permissions.userWrites = true ∧
      Path.isValidName "..." = true ∧ (∀ c ∈ "...".toList, Text.isBlank c = false) ∧
      (∀ m ∈ Volume.standard.tree.childrenOf d, ¬ m.Called "...") ∧
      Text.foldCase "..." ≠ "root" ∧ Text.foldCase "..." ≠ "~" ∧
      (∃ v₁ v₂, Answers Volume.standard "mf ..." .silent v₁ ∧
        Answers v₁ "df ..." (.message "\"...\" deleted.") v₂ ∧
        v₂.tree = Volume.standard.tree) ∧
      ∃ v₁ v₂ v₃ v₄, Answers Volume.standard "md ..." .silent v₁ ∧
        Answers v₁ "cd ..." .silent v₂ ∧ v₂.tree.currentPath = "/users/user/home/..." ∧
        Answers v₂ "cd .." .silent v₃ ∧ v₃.tree.current = Volume.standard.tree.current ∧
        Answers v₃ "dd ..." (.message "\"...\" deleted.") v₄ ∧
        v₄.tree = Volume.standard.tree := by
  have hsound : Volume.standard.tree.Sound := Tree.sound_standard
  have hd := hsound.directory?_current
  have hreads : Volume.standard.tree.currentDirectory.permissions.userReads = true := by
    decide +kernel
  have hwrites : Volume.standard.tree.currentDirectory.permissions.userWrites = true := by
    decide +kernel
  have hname : Path.isValidName "..." = true := by decide +kernel
  have hblank : ∀ c ∈ "...".toList, Text.isBlank c = false :=
    (by decide +kernel : Solid "...").2
  have hnone : ∀ m ∈ Volume.standard.tree.childrenOf Volume.standard.tree.currentDirectory,
      ¬ m.Called "..." := by
    unfold Node.Called
    decide +kernel
  have hroot : Text.foldCase "..." ≠ "root" := by decide +kernel
  have hhome : Text.foldCase "..." ≠ "~" := by decide +kernel
  have hpath : Tree.spell (Volume.standard.tree.names Volume.standard.tree.currentDirectory ++
      ["..."]) = "/users/user/home/..." := by decide +kernel
  obtain ⟨hfile, _, hway⟩ :=
    delete_undoes_make hsound.intact hd hreads hwrites hname hblank
  obtain ⟨v₁, v₂, v₃, v₄, hmake, hdown, _, hlonger, hback, hcurrent, hdelete, hsame⟩ :=
    hway hnone hroot hhome
  exact ⟨_, hsound.intact, hd, hreads, hwrites, hname, hblank, hnone, hroot, hhome,
    hfile fun m hm _ => hnone m hm, v₁, v₂, v₃, v₄, hmake, hdown, hlonger.trans hpath, hback,
    hcurrent, hdelete, hsame⟩

end Interpreter

end TermShell
