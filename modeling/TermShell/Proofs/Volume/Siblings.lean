import TermShell.Proofs.Names
import TermShell.Proofs.Tree.Growth
import TermShell.Proofs.Volume

/-!
# A new file among its siblings

Nothing keeps names apart, so a file can be made under a name that another one answers to. It is
put behind the others, and a lookup among the files meets them first. One of them is in the way
exactly if it answers to the name, with its extension or without. Directories are not in the way.

None of this depends on the shape of the tree. In a tree that is not sound the current directory
may already list the number that the file gets, and may do so more than once; what counts is what
stands in front of the first place where it is listed.
-/

namespace TermShell

namespace Tree

variable {t t' : Tree} {d n : Node} {before : List Node}

/-- The node is a child of the directory, and `before` is all that stands in front of it. -/
def Behind (t : Tree) (d : Node) (before : List Node) (n : Node) : Prop :=
  n ∉ before ∧ ∃ after, t.childrenOf d = before ++ n :: after

theorem exists_behind (h : n ∈ t.childrenOf d) : ∃ before, t.Behind d before n := by
  obtain ⟨before, after, hchildren, hnot⟩ := List.eq_append_cons_of_mem h
  exact ⟨before, hnot, after, hchildren⟩

/-- **A child is found unless one in front of it is**, that is to say, one of the wanted kind that
is called the same. -/
theorem Behind.findChild_iff (h : t.Behind d before n) {name : String} {wanted : Node → Bool}
    (hwanted : wanted n = true) (hname : n.Called name) :
    t.findChild d name wanted = some n ↔
      ∀ b ∈ before, wanted b = true → ¬ b.Called name := by
  obtain ⟨hnot, after, hchildren⟩ := h
  have hself : (n :: after).find? (fun c => wanted c && c.answersTo name) = some n :=
    List.find?_cons_of_pos (by rw [hwanted, Node.answersTo_iff.mpr hname]; rfl)
  -- the node itself is not among those in front, so that finding it is finding none of them
  have hfront : before.find? (fun c => wanted c && c.answersTo name) ≠ some n :=
    fun hfound => hnot (List.mem_of_find?_eq_some hfound)
  rw [findChild, hchildren, List.find?_append, hself, Option.or_eq_some_iff,
    or_iff_right hfront, and_iff_left rfl, List.find?_eq_none]
  simp only [Bool.and_eq_true, Node.answersTo_iff, not_and]

/-- **The files in front of a new node have been in the directory before**, however broken the
tree. -/
theorem Appended.exists_behind {p : Nat} (h : t.Appended p n t') (hd : t.directory? p = some d) :
    ∃ d' before, t'.directory? p = some d' ∧ t'.Behind d' before n ∧
      ∀ b ∈ before, b.isFile = true → b ∈ t.childrenOf d := by
  obtain ⟨e, he, he'⟩ := h.into
  obtain rfl := Option.some.inj (he.symm.trans hd)
  have hdir := (directory?_eq_some_iff.mp hd).2
  have hchildren := Node.children_withChildren (e.children ++ [n.id]) hdir
  have hd' : t'.directory? p = some (e.withChildren (e.children ++ [n.id])) :=
    directory?_of_get? hd he' (by simp)
  obtain ⟨before, hbehind⟩ := Tree.exists_behind (mem_childrenOf.mpr
    ⟨h.new, hchildren ▸ List.mem_append_right _ List.mem_cons_self⟩)
  refine ⟨_, before, hd', hbehind, fun b hb hfile => ?_⟩
  obtain ⟨hnot, after, hsplit⟩ := hbehind
  obtain ⟨hget, hlisted⟩ := mem_childrenOf.mp (hsplit ▸ List.mem_append_left _ hb)
  have hne : b.id ≠ n.id := by
    intro hid
    rw [hid, h.new] at hget
    exact hnot (Option.some.inj hget ▸ hb)
  -- the directory itself may be listed there too, but is no file
  have hnotp : b.id ≠ p := by
    rintro rfl
    obtain rfl := Option.some.inj (he'.symm.trans hget)
    simp [Node.isFile, hdir] at hfile
  rw [hchildren, List.mem_append, List.mem_singleton] at hlisted
  exact mem_childrenOf.mpr ⟨(h.others b.id hne hnotp).symm.trans hget, hlisted.resolve_right hne⟩

end Tree

namespace Volume

/--
**Taking names apart and comparing them agree with full names.**

A node is recognised by a name exactly if that is its full name. A file whose base name and
extension come from taking a name apart has that name as its full name, has no dot in its
extension, and has no extension at all exactly if there is no dot in the name. So in any directory,
however broken the tree, a file can be made under any valid name, and a lookup of that name among
the files finds it exactly if no file in front of it has the name as its full or bare name. The
files in front of it are some that the directory had before.
-/
theorem made_file_found :
    (∀ (n : Node) (q : String), n.hasFullName q = true ↔ n.fullName = q) ∧
    (∀ (name : String) (id parent : Nat) (contents : String) (permissions : PermissionSet),
      let parts := FileName.split name
      let f := Node.file id parent parts.1 parts.2 contents permissions
      f.fullName = name ∧ (∀ e, f.extension = some e → '.' ∉ e.toList) ∧
        (f.extension = none ↔ '.' ∉ name.toList)) ∧
    ∀ (v : Volume) (d : Node) (name : String), v.tree.directory? v.tree.current = some d →
      Path.isValidName name = true →
      let parts := FileName.split name
      let f := Node.file v.next v.tree.current parts.1 parts.2 "" .userDefault
      ∃ v' d' before, v.createFile name = .ok v' ∧
        v'.tree.directory? v.tree.current = some d' ∧ v'.tree.Behind d' before f ∧
        (∀ b ∈ before, b.isFile = true → b ∈ v.tree.childrenOf d) ∧
        (v'.tree.findChild d' name Node.isFile = some f ↔
          ∀ b ∈ before, b.isFile = true → ¬ b.Called name) := by
  refine ⟨fun n q => Node.hasFullName_iff, fun name id parent contents permissions => ?_,
    fun v d name hd hname => ?_⟩
  · exact ⟨FileName.join_split name, fun e he => FileName.dot_not_mem_of_split he,
      FileName.split_extension_eq_none_iff⟩
  · obtain ⟨v', hcreate⟩ := createFile_of_valid hd hname
    obtain ⟨d', before, hd', hbehind, hold⟩ := (appended_of_createFile hcreate).exists_behind hd
    exact ⟨v', d', before, hcreate, hd', hbehind, hold,
      hbehind.findChild_iff rfl (.inl (FileName.join_split name))⟩

/-- A root that lists, between a file and a directory, a number that stands for nothing. -/
def gap : Tree :=
  ⟨0, 0, Arena.ofList [
    (Node.root 0 .userReadWrite).withChildren [1, 3, 2],
    Node.file 1 0 "log" (some "tar") "" .userReadWrite,
    Node.directory 2 0 "log.tar.gz" .userReadWrite]⟩

/-- The new file takes the place of the number. As `log.tar.gz` it is found, with a base name
that is the full name of the file in front of it; as `log` it would not be. -/
theorem made_file_found_in_gap :
    (∃ d, gap.directory? 0 = some d) ∧ Path.isValidName "log.tar.gz" = true ∧
    (∃ v' d' f, (ofTree gap).createFile "log.tar.gz" = .ok v' ∧
      v'.tree.directory? 0 = some d' ∧ f.id = 3 ∧ f.name = "log.tar" ∧
      v'.tree.findChild d' "log.tar.gz" Node.isFile = some f) ∧
    ((ofTree gap).createFile "log").toOption.bind (fun v' =>
      (v'.tree.findChild v'.tree.rootNode "log" Node.isFile).map Node.id) = some 1 := by
  have hname : Path.isValidName "log.tar.gz" = true := by decide
  refine ⟨⟨_, rfl⟩, hname, ?_, by decide +kernel⟩
  obtain ⟨v', d', before, hcreate, hd', -, hold, hfound⟩ :=
    made_file_found.2.2 (ofTree gap) _ "log.tar.gz" rfl hname
  refine ⟨v', d', _, hcreate, hd', rfl, by decide, hfound.mpr fun b hb hfile hcalled => ?_⟩
  have hnone : gap.findChild gap.rootNode "log.tar.gz" Node.isFile = none := by decide +kernel
  have := List.find?_eq_none.mp hnone b (hold b hb hfile)
  simp [hfile, Node.answersTo_iff.mpr hcalled] at this

end Volume

end TermShell
