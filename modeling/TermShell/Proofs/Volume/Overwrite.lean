import TermShell.Proofs.Tree.Overwrite
import TermShell.Volume

/-!
# Volumes with other contents

What has been shown of trees carries over to volumes: everything done on an overwritten volume
comes to what it came to before, overwritten, refusals included. Something new gets the same
number, and it is empty, so that there has to be nothing to overwrite it with.
-/

namespace TermShell.Volume

variable (g : Nat → String → String)

/-- The volume with every file overwritten. -/
def overwrite (v : Volume) : Volume :=
  ⟨v.tree.overwrite g, v.next, (v.tree.arena.bound_overwrite).symm ▸ v.bound_le⟩

variable {g} (v : Volume)

@[simp] theorem tree_overwrite : (v.overwrite g).tree = v.tree.overwrite g := rfl

/-! ## Places -/

theorem resolveDirectory_overwrite (path : String) :
    (v.overwrite g).resolveDirectory path =
      (v.resolveDirectory path).map (Node.overwrite g) := by
  unfold resolveDirectory
  rw [tree_overwrite, Tree.resolveDirectory_overwrite, Option.map_or]
  cases Path.classify path with
  | relative components => simp only [Tree.rootNode_overwrite, Tree.findDirectory_overwrite]
  | _ => simp only [Option.map_none]

theorem resolveFile_overwrite (path : String) :
    (v.overwrite g).resolveFile path = (v.resolveFile path).map (Node.overwrite g) := by
  rw [resolveFile, tree_overwrite, Tree.currentDirectory_overwrite, Tree.findFile_overwrite,
    resolveFile]

theorem find_overwrite (name : String) {wanted : Node → Bool} (hw : Node.Blind wanted) :
    (v.overwrite g).find name wanted = (v.find name wanted).map (Node.overwrite g) := by
  unfold find
  split
  · rfl
  · rw [tree_overwrite, Tree.currentDirectory_overwrite, Tree.findChild_overwrite _ _ _ hw]
    cases v.tree.findChild v.tree.currentDirectory name wanted <;> rfl

theorem allows_overwrite (p : Permission) : (v.overwrite g).allows p = v.allows p := by
  rw [allows, tree_overwrite, Tree.currentDirectory_overwrite, Node.permissions_overwrite, allows]

/-! ## Changes -/

theorem withTree_overwrite (t : Tree) :
    (v.overwrite g).withTree (t.overwrite g) = (v.withTree t).overwrite g :=
  ext rfl (congrArg (max v.next) t.arena.bound_overwrite)

theorem adopt_overwrite (r : Except TreeError Tree) :
    (v.overwrite g).adopt (r.map (Tree.overwrite g)) = (v.adopt r).map (overwrite g) := by
  cases r with
  | error e => rfl
  | ok t => exact congrArg Except.ok (v.withTree_overwrite t)

theorem setCurrent_overwrite (id : Nat) :
    (v.overwrite g).setCurrent id = (v.setCurrent id).overwrite g := by
  unfold setCurrent
  rw [tree_overwrite, Tree.setCurrent_overwrite]
  cases v.tree.setCurrent id with
  | none => rfl
  | some t => exact v.withTree_overwrite t

/-- Inserting a node that is not overwritten. -/
theorem adopt_insert_overwrite {n : Node} (hn : n.overwrite g = n) :
    (v.overwrite g).adopt ((v.overwrite g).tree.insert v.tree.current n) =
      (v.adopt (v.tree.insert v.tree.current n)).map (overwrite g) := by
  rw [← adopt_overwrite, ← Tree.insert_overwrite, hn, tree_overwrite]

theorem createFile_overwrite (hnew : g v.next "" = "") (name : String) :
    (v.overwrite g).createFile name = (v.createFile name).map (overwrite g) := by
  unfold createFile
  cases nameFault? name with
  | some e => rfl
  | none => exact v.adopt_insert_overwrite (Node.overwrite_of_text _ hnew)

theorem createDirectory_overwrite (name : String) :
    (v.overwrite g).createDirectory name = (v.createDirectory name).map (overwrite g) := by
  unfold createDirectory
  cases nameFault? name with
  | some e => rfl
  | none => exact v.adopt_insert_overwrite (Node.overwrite_of_isDirectory rfl)

theorem delete_overwrite (id : Nat) :
    (v.overwrite g).delete id = (v.delete id).map fun r => (r.1.overwrite g, r.2) := by
  unfold delete
  rw [tree_overwrite, Tree.current_overwrite, Tree.remove_overwrite]
  cases v.tree.remove v.tree.current id with
  | error e => rfl
  | ok r => exact congrArg (fun w => Except.ok (w, r.2)) (v.withTree_overwrite r.1)

theorem setPermissions_overwrite (id : Nat) (permissions : PermissionSet) :
    (v.overwrite g).setPermissions id permissions =
      (v.setPermissions id permissions).map (overwrite g) := by
  rw [setPermissions, tree_overwrite, Tree.setPermissions_overwrite, adopt_overwrite,
    setPermissions]

theorem write_eq_overwrite {n : Node} (hn : v.tree.get? n.id = some n) (hf : n.isFile = true)
    (contents : String) :
    v.write n.id contents = .ok (v.overwrite (Tree.writing n.id contents)) := by
  rw [write, Tree.write_eq_overwrite _ hn hf, adopt]
  refine congrArg Except.ok (ext rfl ?_)
  exact Nat.max_eq_left (v.overwrite _).bound_le

end TermShell.Volume
