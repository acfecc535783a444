import Mathlib.Data.List.Forall2
import Mathlib.Data.List.Perm.Basic
import TermShell.Json

/-!
# Structured values up to the order of fields

The order in which the fields of an object are written means nothing, so two values are the `Same`
if they differ in no more than that, at whatever depth. A written form is read back (`ReadsBack`)
if reading recovers what was written from every value that is the same. That is more than to recover
it from the written form itself, and it is what makes values with the same written form equal.

There is one lemma for each way in which a written form is put together: values that may be null,
lists, fields that are found by name, and objects whose names are keys. The last is where the order
could show: reading meets the fields in the order in which they come, and gives a list that differs
from the one that was written by a permutation.
-/

namespace TermShell.Json

/-! ## The same value -/

/-- Two fields have one name, and their values are related. -/
inductive Fieldwise (r : Json → Json → Prop) : String × Json → String × Json → Prop where
  | intro (name : String) {j j' : Json} : r j j' → Fieldwise r (name, j) (name, j')

/-- The values differ at most in the order of fields. -/
inductive Same : Json → Json → Prop where
  | refl (j : Json) : Same j j
  | list {items items' : List Json} :
      List.Forall₂ Same items items' → Same (.list items) (.list items')
  | object {fields fields' reordered : List (String × Json)} :
      List.Forall₂ (Fieldwise Same) fields fields' → fields'.Perm reordered →
      Same (.object fields) (.object reordered)

theorem Fieldwise.fst_eq {r : Json → Json → Prop} {f f' : String × Json} (h : Fieldwise r f f') :
    f.1 = f'.1 := by
  cases h
  rfl

theorem Fieldwise.snd {r : Json → Json → Prop} {f f' : String × Json} (h : Fieldwise r f f') :
    r f.2 f'.2 := by
  cases h
  assumption

theorem forall₂_same_refl (items : List Json) : List.Forall₂ Same items items :=
  List.forall₂_same.mpr fun j _ => .refl j

theorem Same.ne_null {j j' : Json} (h : Same j j') (hj : j ≠ .null) : j' ≠ .null := by
  cases h with
  | refl => exact hj
  | list => exact nofun
  | object => exact nofun

theorem Same.of_list {items : List Json} {j : Json} (h : Same (.list items) j) :
    ∃ items', j = .list items' ∧ List.Forall₂ Same items items' := by
  cases h with
  | refl => exact ⟨items, rfl, forall₂_same_refl items⟩
  | list hitems => exact ⟨_, rfl, hitems⟩

theorem Same.of_object {fields : List (String × Json)} {j : Json} (h : Same (.object fields) j) :
    ∃ fields' reordered, j = .object reordered ∧ List.Forall₂ (Fieldwise Same) fields fields' ∧
      fields'.Perm reordered := by
  cases h with
  | refl =>
    exact ⟨fields, fields, rfl, List.forall₂_same.mpr fun f _ => .intro f.1 (.refl f.2), .refl _⟩
  | object hfields horder => exact ⟨_, _, rfl, hfields, horder⟩

/-- Of a single field there is but one order. -/
theorem Same.of_singleton {name : String} {value j : Json} (h : Same (.object [(name, value)]) j) :
    ∃ value', j = .object [(name, value')] ∧ Same value value' := by
  obtain ⟨fields, reordered, rfl, hfields, horder⟩ := h.of_object
  obtain ⟨field, _, hfield, hrest, rfl⟩ := List.forall₂_cons_left_iff.mp hfields
  obtain rfl := List.forall₂_nil_left_iff.mp hrest
  obtain rfl := List.singleton_perm.mp horder
  cases hfield with
  | intro _ hvalue => exact ⟨_, rfl, hvalue⟩

/-- **Fields are found by name**, in whatever order they come. -/
theorem Same.named {j j' : Json} (h : Same j j') (name : String) :
    ∃ values, List.Forall₂ Same (j.named name) values ∧ values.Perm (j'.named name) := by
  cases h with
  | refl => exact ⟨_, forall₂_same_refl _, .refl _⟩
  | list => exact ⟨[], .nil, .nil⟩
  | @object fields fields' _ hfields horder =>
    refine ⟨_, ?_, (horder.filter (·.1 == name)).map Prod.snd⟩
    have hnamed : List.Forall₂ (Fieldwise Same) (fields.filter (·.1 == name))
        (fields'.filter (·.1 == name)) :=
      List.rel_filter (fun f f' hf => by simp only [hf.fst_eq]) hfields
    rw [Json.named, List.forall₂_map_left_iff, List.forall₂_map_right_iff]
    exact hnamed.imp fun f f' hf => hf.snd

theorem Same.named_of_singleton {j j' value : Json} {name : String} (h : Same j j')
    (hnamed : j.named name = [value]) : ∃ value', j'.named name = [value'] ∧ value.Same value' := by
  obtain ⟨values, hvalues, horder⟩ := h.named name
  rw [hnamed] at hvalues
  cases hvalues with
  | cons hsame hrest =>
    cases hrest
    exact ⟨_, List.perm_singleton.mp horder.symm, hsame⟩

/-! ## Forms that are read back -/

variable {α : Type} {encode : α → Json} {decode? : Json → Option α}

/-- What has been written is read back from every value that is the same. -/
def ReadsBack (encode : α → Json) (decode? : Json → Option α) : Prop :=
  ∀ a j, (encode a).Same j → decode? j = some a

/-- **Values whose written forms are the same are equal.** -/
theorem ReadsBack.inj (h : ReadsBack encode decode?) {a b : α} (hsame : (encode a).Same (encode b)) :
    a = b :=
  Option.some.inj ((h a _ hsame).symm.trans (h b _ (.refl _)))

theorem readsBack_text : ReadsBack .text text? := by
  intro s j h
  cases h
  rfl

theorem readsBack_number : ReadsBack .number number? := by
  intro n j h
  cases h
  rfl

theorem readsBack_bool : ReadsBack .bool bool? := by
  intro b j h
  cases h
  rfl

/-- A value that may be null is read back if the written form of a value is never null. -/
theorem ReadsBack.optional (h : ReadsBack encode decode?) (hnull : ∀ a, encode a ≠ .null) :
    ReadsBack (Json.optional encode) (optional? decode?) := by
  intro o j hsame
  cases o with
  | none =>
    cases hsame
    rfl
  | some a =>
    have hthere : j ≠ .null := hsame.ne_null (hnull a)
    unfold optional?
    split
    · exact absurd rfl hthere
    · rw [h a j hsame, Option.map_some]

theorem mapM_eq_some_iff {β : Type} {f : α → Option β} {as : List α} {bs : List β} :
    as.mapM f = some bs ↔ List.Forall₂ (fun a b => f a = some b) as bs := by
  induction as generalizing bs with
  | nil => cases bs <;> simp
  | cons a as ih => cases bs <;> simp [List.mapM_cons, Option.bind_eq_some_iff, ih]

/-- Lists of values are read back. -/
theorem ReadsBack.list (h : ReadsBack encode decode?) :
    ReadsBack (fun as => .list (as.map encode)) (list? decode?) := by
  intro as j hsame
  obtain ⟨items, rfl, hitems⟩ := hsame.of_list
  rw [List.forall₂_map_left_iff] at hitems
  exact mapM_eq_some_iff.mpr (hitems.imp fun a j hj => h a j hj).flip

variable {j j' : Json} {name : String}

/-- A field is read back from an object that has it once. -/
theorem ReadsBack.field (h : ReadsBack encode decode?) {a : α} (hsame : j.Same j')
    (hnamed : j.named name = [encode a]) : j'.read? name decode? = some a := by
  obtain ⟨value, hvalue, hform⟩ := hsame.named_of_singleton hnamed
  rw [read?, hvalue]
  exact h a value hform

/-- So is a field that may be null. -/
theorem ReadsBack.optionalField (h : ReadsBack (Json.optional encode) (optional? decode?))
    {o : Option α} (hsame : j.Same j') (hnamed : j.named name = [Json.optional encode o]) :
    j'.readOptional? name decode? = some o := by
  obtain ⟨value, hvalue, hform⟩ := hsame.named_of_singleton hnamed
  rw [readOptional?, hvalue]
  exact h o value hform

/-- **An object whose names are keys is read back up to order.** -/
theorem fields?_of_same {key : α → String} {decodeField? : String × Json → Option α}
    (h : ∀ a j, (encode a).Same j → decodeField? (key a, j) = some a) {as : List α}
    (hkeys : (as.map key).Nodup) (hsame : Same (.object (as.map fun a => (key a, encode a))) j) :
    ∃ bs, j.fields? decodeField? = some bs ∧ bs.Perm as := by
  obtain ⟨fields, reordered, rfl, hfields, horder⟩ := hsame.of_object
  rw [List.forall₂_map_left_iff] at hfields
  have hnames : fields.map Prod.fst = as.map key := by
    have hrel : List.Forall₂ (fun name key => name = key) (as.map key) (fields.map Prod.fst) := by
      rw [List.forall₂_map_left_iff, List.forall₂_map_right_iff]
      exact hfields.imp fun a f hf => hf.fst_eq
    rw [List.forall₂_eq_eq_eq] at hrel
    exact hrel.symm
  have hread : List.Forall₂ (fun a f => decodeField? f = some a) as fields :=
    hfields.imp fun a f hf => by
      cases hf with
      | intro _ hform => exact h a _ hform
  -- what is read in another order are the same values in that order
  obtain ⟨bs, hpermuted, hbs⟩ := List.perm_comp_forall₂ horder.symm hread.flip
  have hnodup : (reordered.map Prod.fst).Nodup :=
    (horder.map Prod.fst).nodup_iff.mp (hnames ▸ hkeys)
  refine ⟨bs, ?_, hbs⟩
  rw [fields?, if_pos hnodup]
  exact mapM_eq_some_iff.mpr hpermuted

end TermShell.Json
