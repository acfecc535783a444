import TermShell.Layout
import TermShell.Proofs.Names
import TermShell.Tree.Address
import TermShell.Tree.Edit

/-!
# Trees with other contents

Overwriting a tree gives every file new contents, which may depend on the file and on what it
held. Looking for nodes, spelling their paths and changing a tree are all done without a glance
at the contents: each of these, done on an overwritten tree, comes to what it came to before,
overwritten. So for every operation there is one equation here, that it commutes with
overwriting.

As an overwriting may leave most files as they are, this covers any two trees that differ in
the contents of some files only.
-/

namespace TermShell

variable (g : Nat → String → String)

/-! ## Nodes -/

/-- The node with the contents that `g` makes of its number and of what it held. -/
def Node.overwrite (n : Node) : Node := n.withContents (g n.id n.text)

namespace Node

variable {g} (n : Node)

@[simp] theorem id_overwrite : (n.overwrite g).id = n.id := id_withContents _ _

@[simp] theorem parent_overwrite : (n.overwrite g).parent = n.parent := parent_withContents _ _

@[simp] theorem permissions_overwrite : (n.overwrite g).permissions = n.permissions :=
  permissions_withContents _ _

@[simp] theorem isRoot_overwrite : (n.overwrite g).isRoot = n.isRoot := isRoot_withContents _ _

@[simp] theorem children_overwrite : (n.overwrite g).children = n.children :=
  children_withContents _ _

@[simp] theorem isDirectory_overwrite : (n.overwrite g).isDirectory = n.isDirectory :=
  isDirectory_withContents _ _

@[simp] theorem isFile_overwrite : (n.overwrite g).isFile = n.isFile :=
  congrArg (! ·) n.isDirectory_overwrite

@[simp] theorem fullName_overwrite : (n.overwrite g).fullName = n.fullName :=
  fullName_withContents _ _

@[simp] theorem answersTo_overwrite (name : String) :
    (n.overwrite g).answersTo name = n.answersTo name := by
  rcases n with ⟨_, _, _, _, _, _ | _⟩ <;> rfl

/-- What is written over with what it holds stays as it is. -/
theorem overwrite_of_text (h : g n.id n.text = n.text) : n.overwrite g = n := by
  rw [overwrite, h]
  rcases n with ⟨_, _, _, _, _, _ | _⟩ <;> rfl

theorem overwrite_of_isDirectory {n : Node} (h : n.isDirectory = true) : n.overwrite g = n := by
  rcases n with ⟨_, _, _, _, _, _ | _⟩
  · exact absurd h (by simp [isDirectory])
  · rfl

theorem overwrite_withChildren (cs : List Nat) :
    (n.overwrite g).withChildren cs = (n.withChildren cs).overwrite g := by
  rcases n with ⟨_, _, _, _, _, _ | _⟩ <;> rfl

theorem overwrite_relink (parent : Option Nat) (isRoot : Bool) :
    { n.overwrite g with parent, isRoot } = Node.overwrite g { n with parent, isRoot } := by
  rcases n with ⟨_, _, _, _, _, _ | _⟩ <;> rfl

theorem overwrite_repermit (permissions : PermissionSet) :
    { n.overwrite g with permissions } = Node.overwrite g { n with permissions } := by
  rcases n with ⟨_, _, _, _, _, _ | _⟩ <;> rfl

/-- A choice of nodes that goes without their contents. -/
def Blind (wanted : Node → Bool) : Prop := ∀ g n, wanted (Node.overwrite g n) = wanted n

theorem blind_isFile : Blind isFile := fun _ n => n.isFile_overwrite

theorem blind_isDirectory : Blind isDirectory := fun _ n => n.isDirectory_overwrite

theorem blind_anyKind : Blind Tree.anyKind := fun _ _ => rfl

end Node

/-! ## Arenas -/

namespace Arena

/-- The arena with every node overwritten. -/
def overwrite (a : Arena) : Arena :=
  ⟨a.nodes.map (Node.overwrite g),
    List.pairwise_map.mpr (a.ascending.imp fun h => by simpa using h)⟩

variable {g} (a : Arena)

theorem get?_overwrite (id : Nat) :
    (a.overwrite g).get? id = (a.get? id).map (Node.overwrite g) := by
  simp only [get?, overwrite, List.find?_map, Function.comp_def, Node.id_overwrite]

theorem size_overwrite : (a.overwrite g).size = a.size := List.length_map _

theorem bound_overwrite : (a.overwrite g).bound = a.bound := by
  simp only [bound, overwrite, List.foldr_map, Node.id_overwrite]

theorem contains_overwrite (id : Nat) : (a.overwrite g).contains id = a.contains id := by
  rw [contains, get?_overwrite, Option.isSome_map, contains]

theorem overwrite_put (n : Node) :
    (a.overwrite g).put (n.overwrite g) = (a.put n).overwrite g := by
  refine ext_get? fun id => ?_
  rw [get?_put, get?_overwrite, get?_overwrite, get?_put, Node.id_overwrite]
  split <;> rfl

theorem overwrite_erase (id : Nat) : (a.overwrite g).erase id = (a.erase id).overwrite g := by
  refine ext_get? fun id' => ?_
  rw [get?_erase, get?_overwrite, get?_overwrite, get?_erase]
  split <;> rfl

/-- What can be reached does not depend on what files hold. -/
theorem reach_overwrite (pending : List Nat) :
    (a.overwrite g).reach pending =
      ((a.reach pending).1.map (Node.overwrite g), (a.reach pending).2.overwrite g) := by
  fun_induction Arena.reach a pending with
  | case1 a =>
    rw [Arena.reach]
    rfl
  | case2 a id rest n found below ih =>
    have hfound : (a.overwrite g).get? id = some (n.overwrite g) := by
      rw [get?_overwrite, found, Option.map_some]
    rw [Arena.reach]
    split
    · rename_i m hm
      obtain rfl := Option.some.inj (hm.symm.trans hfound)
      rw [Node.children_overwrite, overwrite_erase, ih]
      rfl
    · rename_i hm
      exact absurd (hm.symm.trans hfound) (by simp)
  | case3 a id rest found ih =>
    have hnone : (a.overwrite g).get? id = none := by rw [get?_overwrite, found, Option.map_none]
    rw [Arena.reach]
    split
    · rename_i m hm
      exact absurd (hm.symm.trans hnone) (by simp)
    · exact ih

theorem overwrite_prune (id : Nat) : (a.overwrite g).prune id = (a.prune id).overwrite g :=
  congrArg Prod.snd (a.reach_overwrite [id])

end Arena

/-! ## Places in a tree -/

namespace Tree

/-- The tree with every file overwritten. -/
def overwrite (t : Tree) : Tree := ⟨t.root, t.current, t.arena.overwrite g⟩

variable {g} (t : Tree)

@[simp] theorem root_overwrite : (t.overwrite g).root = t.root := rfl

@[simp] theorem current_overwrite : (t.overwrite g).current = t.current := rfl

theorem get?_overwrite (id : Nat) :
    (t.overwrite g).get? id = (t.get? id).map (Node.overwrite g) := t.arena.get?_overwrite id

theorem directory?_overwrite (id : Nat) :
    (t.overwrite g).directory? id = (t.directory? id).map (Node.overwrite g) := by
  rw [directory?, get?_overwrite, Option.filter_map, directory?]
  congr 2
  exact funext fun n => n.isDirectory_overwrite

@[simp] theorem rootNode_overwrite : (t.overwrite g).rootNode = t.rootNode.overwrite g := by
  rw [rootNode, get?_overwrite, root_overwrite, rootNode]
  cases t.get? t.root <;> rfl

@[simp] theorem currentDirectory_overwrite :
    (t.overwrite g).currentDirectory = t.currentDirectory.overwrite g := by
  rw [currentDirectory, directory?_overwrite, currentDirectory, rootNode_overwrite,
    current_overwrite]
  exact Option.getD_map _ _ _

@[simp] theorem parentOf_overwrite (n : Node) :
    (t.overwrite g).parentOf (n.overwrite g) = (t.parentOf n).overwrite g := by
  rw [parentOf, Node.parent_overwrite, rootNode_overwrite, parentOf]
  cases n.parent with
  | none => rfl
  | some p =>
    rw [Option.bind_some, Option.bind_some, directory?_overwrite]
    exact Option.getD_map _ _ _

theorem childrenOf_overwrite (n : Node) :
    (t.overwrite g).childrenOf (n.overwrite g) = (t.childrenOf n).map (Node.overwrite g) := by
  simp only [childrenOf, Node.children_overwrite, List.map_filterMap, get?_overwrite]

/-! ## Walks -/

theorem findChild_overwrite (d : Node) (name : String) {wanted : Node → Bool}
    (hw : Node.Blind wanted) :
    (t.overwrite g).findChild (d.overwrite g) name wanted =
      (t.findChild d name wanted).map (Node.overwrite g) := by
  simp only [findChild, childrenOf_overwrite, List.find?_map, Function.comp_def, hw g,
    Node.answersTo_overwrite]

/-- **A step of a walk goes to the same place.** -/
theorem enter_overwrite (here : Node) (component : String) :
    (t.overwrite g).enter (here.overwrite g) component =
      (t.enter here component).map (Node.overwrite g) := by
  unfold enter
  split
  · rfl
  · split
    · rw [parentOf_overwrite]
      rfl
    · rw [t.findChild_overwrite here component Node.blind_anyKind, Option.filter_map]
      congr 2
      exact funext fun n => n.isDirectory_overwrite

theorem foldlM_enter_overwrite (components : List String) (here : Node) :
    components.foldlM (t.overwrite g).enter (here.overwrite g) =
      (components.foldlM t.enter here).map (Node.overwrite g) := by
  induction components generalizing here with
  | nil => rfl
  | cons component rest ih =>
    rw [List.foldlM_cons, List.foldlM_cons, enter_overwrite]
    cases t.enter here component with
    | none => rfl
    | some next => exact ih next

theorem walk_overwrite (start : Node) (components : List String) :
    (t.overwrite g).walk (start.overwrite g) components =
      (t.walk start components).map (Node.overwrite g) := by
  unfold walk
  rw [Node.isDirectory_overwrite, foldlM_enter_overwrite]
  split <;> rfl

@[simp] theorem origin_overwrite (start : Node) (path : String) :
    (t.overwrite g).origin (start.overwrite g) path = (t.origin start path).overwrite g := by
  unfold origin
  rw [rootNode_overwrite]
  split <;> rfl

theorem findDirectory_overwrite (start : Node) (path : String) :
    (t.overwrite g).findDirectory (start.overwrite g) path =
      (t.findDirectory start path).map (Node.overwrite g) := by
  rw [findDirectory, origin_overwrite, walk_overwrite, findDirectory]

/-- **A path leads to the same file.** -/
theorem findFile_overwrite (start : Node) (path : String) :
    (t.overwrite g).findFile (start.overwrite g) path =
      (t.findFile start path).map (Node.overwrite g) := by
  unfold findFile
  cases (Path.components path).getLast? with
  | none => rfl
  | some name =>
    simp only [origin_overwrite, walk_overwrite]
    cases t.walk (t.origin start path) (Path.components path).dropLast with
    | none => rfl
    | some d => exact t.findChild_overwrite d name Node.blind_isFile

/-- What the user may aim at lies where it lay. -/
theorem resolveDirectory_overwrite (path : String) :
    (t.overwrite g).resolveDirectory path =
      (t.resolveDirectory path).map (Node.overwrite g) := by
  unfold resolveDirectory
  cases Path.classify path with
  | root => exact congrArg some t.rootNode_overwrite
  | current => exact congrArg some t.currentDirectory_overwrite
  | parent => simp only [aim, currentDirectory_overwrite, parentOf_overwrite, Option.map_some]
  | home => simp only [aim, home?, rootNode_overwrite, findDirectory_overwrite]
  | absolute components => simp only [aim, rootNode_overwrite, walk_overwrite]
  | relative components => simp only [aim, currentDirectory_overwrite, walk_overwrite]

theorem namesUp_overwrite (limit : Nat) (n : Node) :
    (t.overwrite g).namesUp limit (n.overwrite g) = t.namesUp limit n := by
  induction limit generalizing n with
  | zero => rfl
  | succ limit ih =>
    rw [namesUp, namesUp, Node.isRoot_overwrite, Node.fullName_overwrite, Node.parent_overwrite]
    cases n.parent with
    | none => rfl
    | some p =>
      rw [Option.bind_some, Option.bind_some, get?_overwrite]
      cases t.get? p with
      | none => rfl
      | some above => simp only [Option.map_some, ih]

@[simp] theorem path_overwrite (n : Node) : (t.overwrite g).path (n.overwrite g) = t.path n := by
  have hsize : (t.overwrite g).size = t.size := t.arena.size_overwrite
  rw [path, names, hsize, namesUp_overwrite, path, names]

/-- What the file at a path holds, seen from the root. -/
def read? (t : Tree) (path : String) : Option String := (t.findFile t.rootNode path).map Node.text

/-- Overwriting goes unnoticed at a path if it spares the file there. -/
theorem read?_overwrite_iff {t : Tree} {path : String} :
    (t.overwrite g).read? path = t.read? path ↔
      ∀ n, t.findFile t.rootNode path = some n → (n.overwrite g).text = n.text := by
  rw [read?, read?, rootNode_overwrite, findFile_overwrite]
  cases t.findFile t.rootNode path with
  | none => simp
  | some n => simp

/-! ## Changes -/

theorem setCurrent_overwrite (id : Nat) :
    (t.overwrite g).setCurrent id = (t.setCurrent id).map (overwrite g) := by
  rw [setCurrent, directory?_overwrite, setCurrent]
  cases t.directory? id <;> rfl

theorem insert_overwrite (p : Nat) (n : Node) :
    (t.overwrite g).insert p (n.overwrite g) = (t.insert p n).map (overwrite g) := by
  unfold insert
  rw [get?_overwrite]
  cases t.get? p with
  | none => rfl
  | some d =>
    simp only [Option.map_some, Node.isDirectory_overwrite, Node.children_overwrite,
      Node.overwrite_withChildren, Node.overwrite_relink]
    split
    · simp only [withArena, overwrite, Arena.overwrite_put, Node.id_overwrite, Except.map]
    · rfl

theorem remove_overwrite (p id : Nat) :
    (t.overwrite g).remove p id = (t.remove p id).map fun r => (r.1.overwrite g, r.2) := by
  unfold remove
  rw [get?_overwrite]
  split
  · rename_i hroot
    rw [if_pos (show id = t.root from hroot)]
    rfl
  · rename_i hroot
    rw [if_neg (show id ≠ t.root from hroot)]
    cases t.get? p with
    | none => rfl
    | some d =>
      simp only [Option.map_some, Node.isDirectory_overwrite, Node.children_overwrite,
        Node.overwrite_withChildren]
      split
      · split
        · simp only [overwrite, Arena.overwrite_put, Arena.overwrite_prune,
            Arena.contains_overwrite, Except.map]
        · rfl
      · rfl

theorem setPermissions_overwrite (id : Nat) (permissions : PermissionSet) :
    (t.overwrite g).setPermissions id permissions =
      (t.setPermissions id permissions).map (overwrite g) := by
  unfold setPermissions
  rw [get?_overwrite]
  cases t.get? id with
  | none => rfl
  | some n =>
    simp only [Option.map_some, Node.overwrite_repermit]
    simp only [withArena, overwrite, Arena.overwrite_put, Except.map]

/-- What a write to the node of this number puts in the place of all contents. -/
def writing (id : Nat) (contents : String) (x : Nat) (s : String) : String :=
  if x = id then contents else s

theorem overwrite_writing (n : Node) (contents : String) :
    n.overwrite (writing n.id contents) = n.withContents contents := by
  rw [Node.overwrite, writing, if_pos rfl]

/-- **To write to a file is to overwrite the tree**, there and nowhere else. -/
theorem write_eq_overwrite {n : Node} (hn : t.get? n.id = some n) (hf : n.isFile = true)
    (contents : String) : t.write n.id contents = .ok (t.overwrite (writing n.id contents)) := by
  rw [write, hn]
  simp only [hf, if_true]
  have harena : t.arena.put (n.withContents contents) =
      t.arena.overwrite (writing n.id contents) := by
    refine Arena.ext_get? fun x => ?_
    rw [Arena.get?_put, Arena.get?_overwrite, Node.id_withContents]
    by_cases hx : x = n.id
    · rw [if_pos hx, hx, show t.arena.get? n.id = some n from hn, Option.map_some,
        overwrite_writing]
    · rw [if_neg hx]
      cases hm : t.arena.get? x with
      | none => rfl
      | some m =>
        have hm' : m.id ≠ n.id := Arena.id_of_get? hm ▸ hx
        rw [Option.map_some, m.overwrite_of_text (if_neg hm')]
  rw [withArena, harena, overwrite]

/-! ## Trees that differ in contents -/

/-- The trees are the same, except for what the nodes with secret numbers hold. -/
structure SameBut (secret : Nat → Prop) (t t' : Tree) : Prop where
  root : t'.root = t.root
  current : t'.current = t.current
  others : ∀ id, ¬ secret id → t'.get? id = t.get? id
  secrets : ∀ id, secret id → ∃ contents,
    t'.get? id = (t.get? id).map fun n => n.withContents contents

theorem sameBut_overwrite {secret : Nat → Prop} (hg : ∀ id, ¬ secret id → ∀ s, g id s = s) :
    SameBut secret t (t.overwrite g) := by
  refine ⟨rfl, rfl, fun id hid => ?_, fun id _ => ?_⟩
  · rw [get?_overwrite]
    cases hn : t.get? id with
    | none => rfl
    | some n =>
      have hkept : ¬ secret n.id := by rwa [Arena.id_of_get? hn]
      rw [Option.map_some, n.overwrite_of_text (hg n.id hkept n.text)]
  · rw [get?_overwrite]
    cases t.get? id with
    | none => exact ⟨"", rfl⟩
    | some n => exact ⟨g n.id n.text, rfl⟩

/-- **Of two trees that differ in contents only, one is the other overwritten.** -/
theorem SameBut.exists_overwrite {secret : Nat → Prop} {t t' : Tree} (h : SameBut secret t t') :
    ∃ g, t' = t.overwrite g ∧ ∀ id, ¬ secret id → ∀ s, g id s = s := by
  have hpoint : ∀ id, ∃ f : String → String, (¬ secret id → ∀ s, f s = s) ∧
      t'.get? id = (t.get? id).map fun n => n.withContents (f n.text) := by
    intro id
    by_cases hid : secret id
    · obtain ⟨contents, hc⟩ := h.secrets id hid
      exact ⟨fun _ => contents, fun hno => absurd hid hno, hc⟩
    · refine ⟨fun s => s, fun _ _ => rfl, ?_⟩
      rw [h.others id hid]
      cases t.get? id with
      | none => rfl
      | some n => exact congrArg some (n.overwrite_of_text (g := fun _ s => s) rfl).symm
  obtain ⟨g, hg⟩ := Classical.axiomOfChoice hpoint
  have harena : t'.arena = t.arena.overwrite g := by
    refine Arena.ext_get? fun id => (hg id).2.trans ?_
    rw [Arena.get?_overwrite]
    refine Option.map_congr fun n hn => ?_
    rw [Node.overwrite, Arena.id_of_get? hn]
  refine ⟨g, ?_, fun id => (hg id).1⟩
  cases t'
  rw [overwrite, ← harena, ← h.root, ← h.current]

end Tree

end TermShell
