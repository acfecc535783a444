import Mathlib.Data.List.Nodup
import TermShell.Proofs.Json
import TermShell.Snapshot

/-!
# Nothing is lost in a snapshot

What is written of a tree determines the tree, whatever its shape: reading gives back the tree that
was written (`Tree.readsBack`), also when the fields of the objects come in another order. There is
one lemma for each form that is written, in which the form is read back. Three of them say something
that is not plain from the definitions. A reference is read back because a number is determined by
its digits. A value that may be null is read back because the written form of a value that is there
is never null, so that an extension that is empty and one that is missing stay apart. An arena is
read back because its references are all different, and because nodes of different numbers can be
stored in any order.
-/

namespace TermShell

open Json (ReadsBack)

/-! ## References and permissions -/

theorem Node.toList_reference (id : Nat) :
    (Node.reference id).toList = '#' :: Nat.toDigits 10 id := by
  simp [Node.reference, Text.decimal]

theorem Json.readsBack_reference : ReadsBack Json.reference Json.reference? := by
  intro id j h
  have hdigits : ∀ c ∈ Nat.toDigits 10 id, c.isDigit = true := fun c hc =>
    Nat.isDigit_of_mem_toDigits (by decide) (by decide) hc
  obtain ⟨d, ds, hid⟩ := List.exists_cons_of_ne_nil (Nat.toDigits_ne_nil (n := id) (b := 10))
  have htext : (Node.reference id).toList = '#' :: d :: ds := hid ▸ Node.toList_reference id
  have hall : (d :: ds).all Char.isDigit = true := List.all_eq_true.mpr (hid ▸ hdigits)
  have hvalue : Nat.ofDigitChars 10 (d :: ds) 0 = id := hid ▸ Nat.ofDigitChars_ten_toDigits
  simp only [Json.reference?, Json.readsBack_text _ _ h, Option.bind_some, htext, hall, if_true,
    hvalue]

/-- Different numbers have different references. -/
theorem Node.reference_injective : Function.Injective Node.reference := fun id id' h =>
  Json.readsBack_reference.inj (by rw [Json.reference, h]; exact .refl _)

theorem PermissionSet.readsBack : ReadsBack PermissionSet.toJson PermissionSet.ofJson? := by
  intro s j h
  rw [ofJson?, Json.readsBack_number _ _ h, Option.bind_some, ofCode?_code]

/-! ## Nodes -/

theorem Body.readsBack : ReadsBack Body.toJson Body.ofJson? := by
  intro b j h
  cases b with
  | file extension contents =>
    obtain ⟨fields, rfl, hfields⟩ := h.of_singleton
    have hextension : fields.readOptional? "extension" Json.text? = some extension :=
      (Json.readsBack_text.optional (by simp)).optionalField hfields (by simp [Json.named])
    have hcontents : fields.read? "contents" Json.text? = some contents :=
      Json.readsBack_text.field hfields (by simp [Json.named])
    simp [ofJson?, hextension, hcontents]
  | directory children =>
    obtain ⟨fields, rfl, hfields⟩ := h.of_singleton
    have hchildren : fields.read? "children" (Json.list? Json.reference?) = some children :=
      Json.readsBack_reference.list.field hfields (by simp [Json.named])
    simp [ofJson?, hchildren]

/-- **A node is read back.** -/
theorem Node.readsBack : ReadsBack Node.toJson Node.ofJson? := by
  intro n j h
  have hid : j.read? "id" Json.reference? = some n.id :=
    Json.readsBack_reference.field h (by simp [toJson, Json.named])
  have hname : j.read? "name" Json.text? = some n.name :=
    Json.readsBack_text.field h (by simp [toJson, Json.named])
  have hparent : j.readOptional? "parent_id" Json.reference? = some n.parent :=
    (Json.readsBack_reference.optional (by simp [Json.reference])).optionalField h
      (by simp [toJson, Json.named])
  have hpermissions : j.read? "permissions" PermissionSet.ofJson? = some n.permissions :=
    PermissionSet.readsBack.field h (by simp [toJson, Json.named])
  have hroot : j.read? "is_root" Json.bool? = some n.isRoot :=
    Json.readsBack_bool.field h (by simp [toJson, Json.named])
  have hbody : j.read? "kind" Body.ofJson? = some n.body :=
    Body.readsBack.field h (by simp [toJson, Json.named])
  simp only [ofJson?, hid, hname, hparent, hpermissions, hroot, hbody, Option.pure_def,
    Option.bind_eq_bind, Option.bind_some]

/-- A node is read back as a field of its arena. -/
theorem Node.ofField?_of_same (n : Node) {j : Json} (h : n.toJson.Same j) :
    Node.ofField? (Node.reference n.id, j) = some n := by
  simp [ofField?, Node.readsBack n j h]

/-! ## Arenas -/

namespace Arena

/-- A node of a new number is added to those that are there. -/
theorem perm_putNode {n : Node} : ∀ {ms : List Node}, n.id ∉ ms.map Node.id →
    (putNode n ms).Perm (n :: ms)
  | [], _ => .refl _
  | m :: ms, h => by
    have hne : n.id ≠ m.id := fun he => h (he ▸ List.mem_cons_self)
    have hrest : n.id ∉ ms.map Node.id := fun hmem => h (List.mem_cons_of_mem _ hmem)
    unfold putNode
    rw [if_neg hne]
    split
    · exact .refl _
    · exact ((perm_putNode hrest).cons m).trans (.swap n m ms)

/-- Nodes of different numbers are all stored. -/
theorem perm_foldl_put : ∀ {ns : List Node} {a : Arena}, ((a.nodes ++ ns).map Node.id).Nodup →
    (ns.foldl put a).nodes.Perm (a.nodes ++ ns)
  | [], a, _ => by simp
  | n :: ns, a, h => by
    have hmiddle : (a.nodes ++ n :: ns).Perm (n :: a.nodes ++ ns) := List.perm_middle
    have hnew : n.id ∉ a.nodes.map Node.id := by
      have hnodup := (hmiddle.map Node.id).nodup_iff.mp h
      rw [List.cons_append, List.map_cons, List.nodup_cons, List.map_append] at hnodup
      exact fun hmem => hnodup.1 (List.mem_append_left _ hmem)
    have hput : ((a.put n).nodes ++ ns).Perm (a.nodes ++ n :: ns) :=
      ((perm_putNode hnew).append_right ns).trans hmiddle.symm
    have hnodup : (((a.put n).nodes ++ ns).map Node.id).Nodup :=
      (hput.map Node.id).nodup_iff.mpr h
    exact (perm_foldl_put hnodup).trans hput

/-- **The nodes of an arena make the arena**, in whatever order they are stored. -/
theorem ofList_of_perm {ns : List Node} {a : Arena} (h : ns.Perm a.nodes) : ofList ns = a := by
  have hnodup : ((empty.nodes ++ ns).map Node.id).Nodup :=
    (h.map Node.id).nodup_iff.mpr a.nodup_ids
  have hperm : (ofList ns).nodes.Perm a.nodes := (perm_foldl_put hnodup).trans h
  refine eq_of_nodes_eq (hperm.eq_of_pairwise ?_ (ofList ns).ascending a.ascending)
  exact fun m n _ _ hlt hgt => absurd hlt (Nat.lt_asymm hgt)

theorem readsBack : ReadsBack Arena.toJson Arena.ofJson? := by
  intro a j h
  have hkeys : (a.nodes.map fun n => Node.reference n.id).Nodup := by
    have hreferences := List.Nodup.map Node.reference_injective a.nodup_ids
    rwa [List.map_map] at hreferences
  obtain ⟨ns, hread, hperm⟩ := Json.fields?_of_same (fun n _ => n.ofField?_of_same) hkeys h
  rw [ofJson?, hread, Option.map_some, ofList_of_perm hperm]

end Arena

/-! ## Trees -/

/-- **A tree is read back**, in whatever shape it is. -/
theorem Tree.readsBack : ReadsBack Tree.toJson Tree.ofJson? := by
  intro t j h
  have hroot : j.read? "root_id" Json.reference? = some t.root :=
    Json.readsBack_reference.field h (by simp [toJson, Json.named])
  have hcurrent : j.read? "current_directory_id" Json.reference? = some t.current :=
    Json.readsBack_reference.field h (by simp [toJson, Json.named])
  have harena : j.read? "entities" Arena.ofJson? = some t.arena :=
    Arena.readsBack.field h (by simp [toJson, Json.named])
  simp only [ofJson?, hroot, hcurrent, harena, Option.pure_def, Option.bind_eq_bind,
    Option.bind_some]

namespace Snapshot

open Calendar (Instant)

variable (s : Snapshot) (savedAt : Instant)

/-- The tree is a field of what is written. -/
theorem named_fileSystem : (s.toJson savedAt).named "file_system" = [s.tree.toJson] := by
  simp [toJson, Json.named]

variable {s savedAt} {j : Json}

/-- **All that a snapshot holds is read back** from what is written of it. -/
theorem read_back (h : (s.toJson savedAt).Same j) :
    j.read? "file_system" Tree.ofJson? = some s.tree ∧
      j.read? "current_directory" Json.text? = some s.currentDirectory ∧
      j.readOptional? "color" Json.text? = some s.color := by
  refine ⟨Tree.readsBack.field h (named_fileSystem s savedAt), ?_, ?_⟩
  · exact Json.readsBack_text.field h (by simp [toJson, Json.named])
  · exact (Json.readsBack_text.optional (by simp)).optionalField h (by simp [toJson, Json.named])

end Snapshot

end TermShell
