import Mathlib.Logic.Relation
import TermShell.Tree.Reach

/-!
# Descent through children

`Arena.Leads` is the relation that `Arena.reach` computes: one number leads to another if
a chain of child lists goes from the first to the second. The relation knows nothing of
pending numbers or of nodes already met, which is what makes it fit for stating what a
removal takes away.

The walk drops exactly what its pending numbers lead to (`get?_reach`), in every arena,
however its nodes refer to each other. The one idea is in `leads_erase`: a chain that comes
back to its start can be cut there, so a node that has been met may be erased before its
children are followed.
-/

namespace TermShell.Arena

/-- The node `p` is there and has `c` among its children. -/
def Lists (a : Arena) (p c : Nat) : Prop := ∃ n, a.get? p = some n ∧ c ∈ n.children

/-- A chain of child lists leads from `p` down to `c`; every number leads to itself. -/
def Leads (a : Arena) : Nat → Nat → Prop := Relation.ReflTransGen a.Lists

/-- One of the pending numbers leads to `x`. -/
def LeadsAny (a : Arena) (pending : List Nat) (x : Nat) : Prop := ∃ s ∈ pending, a.Leads s x

theorem Leads.refl {a : Arena} {p : Nat} : a.Leads p p := Relation.ReflTransGen.refl

theorem Leads.step {a : Arena} {s p c : Nat} (h : a.Leads s p) (hc : a.Lists p c) :
    a.Leads s c := Relation.ReflTransGen.tail h hc

/-- Where more is listed, more is led to. -/
theorem Leads.mono {a b : Arena} (hab : ∀ p c, a.Lists p c → b.Lists p c) {s x : Nat}
    (h : a.Leads s x) : b.Leads s x := by
  induction h with
  | refl => exact .refl
  | tail _ hc ih => exact ih.step (hab _ _ hc)

/-- What lists nothing leads to itself only. -/
theorem eq_of_leads_of_childless {a : Arena} {s x : Nat}
    (hs : ∀ n, a.get? s = some n → n.children = []) (h : a.Leads s x) : x = s := by
  induction h with
  | refl => rfl
  | tail _ hc ih =>
    obtain ⟨n, hn, hmem⟩ := hc
    rw [ih] at hn
    rw [hs n hn] at hmem
    exact absurd hmem (by simp)

theorem lists_of_lists_erase {a : Arena} {id p c : Nat} (h : (a.erase id).Lists p c) :
    a.Lists p c := by
  obtain ⟨n, hn, hc⟩ := h
  rw [get?_erase] at hn
  split at hn
  · exact absurd hn (by simp)
  · exact ⟨n, hn, hc⟩

/-- **A node that has been met may be erased.** What a pending number led to is that number
itself, or is still found from its children and the other pending numbers. -/
theorem leads_erase {a : Arena} {id : Nat} {n : Node} {rest : List Nat}
    (hn : a.get? id = some n) (x : Nat) :
    a.LeadsAny (id :: rest) x ↔ x = id ∨ (a.erase id).LeadsAny (n.children ++ rest) x := by
  constructor
  · intro hex
    obtain ⟨s, hs, h⟩ := hex
    induction h with
    | refl =>
      rcases List.mem_cons.mp hs with rfl | hs
      · exact .inl rfl
      · exact .inr ⟨_, List.mem_append_right _ hs, .refl⟩
    | @tail y x _ hc ih =>
      obtain ⟨m, hm, hx⟩ := hc
      by_cases hy : y = id
      · -- the chain has come back to `id`: start again from its children
        subst hy
        obtain rfl : n = m := Option.some.inj (hn.symm.trans hm)
        exact .inr ⟨x, List.mem_append_left _ hx, .refl⟩
      · obtain ⟨s', hs', h'⟩ := ih.resolve_left hy
        exact .inr ⟨s', hs', h'.step ⟨m, by rw [get?_erase, if_neg hy]; exact hm, hx⟩⟩
  · intro hor
    rcases hor with rfl | ⟨s, hs, h⟩
    · exact ⟨_, List.mem_cons_self, .refl⟩
    · have h' : a.Leads s x := h.mono fun _ _ => lists_of_lists_erase
      rcases List.mem_append.mp hs with hs | hs
      · exact ⟨id, List.mem_cons_self, Relation.ReflTransGen.head ⟨n, hn, hs⟩ h'⟩
      · exact ⟨s, List.mem_cons_of_mem _ hs, h'⟩

/-- A pending number that stands for nothing may be passed over. -/
theorem leadsAny_cons_of_get?_eq_none {a : Arena} {id : Nat} {rest : List Nat}
    (hn : a.get? id = none) (x : Nat) :
    a.LeadsAny (id :: rest) x ↔ x = id ∨ a.LeadsAny rest x := by
  constructor
  · intro hex
    obtain ⟨s, hs, h⟩ := hex
    rcases List.mem_cons.mp hs with rfl | hs
    · -- a number that stands for nothing lists nothing
      exact .inl (eq_of_leads_of_childless (fun n hn' => absurd (hn.symm.trans hn') (by simp)) h)
    · exact .inr ⟨s, hs, h⟩
  · intro hor
    rcases hor with rfl | ⟨s, hs, h⟩
    · exact ⟨_, List.mem_cons_self, .refl⟩
    · exact ⟨s, List.mem_cons_of_mem _ hs, h⟩

/--
**What the walk leaves.**

In what remains, the numbers that the pending ones lead to stand for nothing, and all
others stand for what they stood for before.
-/
theorem get?_reach (a : Arena) (pending : List Nat) (x : Nat) :
    (a.LeadsAny pending x → (a.reach pending).2.get? x = none) ∧
      (¬ a.LeadsAny pending x → (a.reach pending).2.get? x = a.get? x) := by
  -- the pending numbers change from call to call, and the statement is about all of them
  fun_induction Arena.reach a pending with
  | case1 a =>
    constructor
    · intro h
      obtain ⟨s, hs, _⟩ := h
      exact absurd hs (by simp)
    · exact fun _ => rfl
  | case2 a id rest n hn below ih =>
    rw [leads_erase hn x]
    constructor
    · intro h
      by_cases hb : (a.erase id).LeadsAny (n.children ++ rest) x
      · exact ih.1 hb
      · rw [ih.2 hb, get?_erase, if_pos (h.resolve_right hb)]
    · intro h
      rw [not_or] at h
      rw [ih.2 h.2, get?_erase, if_neg h.1]
  | case3 a id rest hn ih =>
    rw [leadsAny_cons_of_get?_eq_none hn x]
    constructor
    · intro h
      by_cases hb : a.LeadsAny rest x
      · exact ih.1 hb
      · rw [ih.2 hb, h.resolve_right hb, hn]
    · intro h
      rw [not_or] at h
      exact ih.2 h.2

theorem get?_prune_of_leads {a : Arena} {id x : Nat} (h : a.Leads id x) :
    (a.prune id).get? x = none :=
  (get?_reach a [id] x).1 ⟨id, List.mem_singleton_self id, h⟩

theorem get?_prune_of_not_leads {a : Arena} {id x : Nat} (h : ¬ a.Leads id x) :
    (a.prune id).get? x = a.get? x := by
  refine (get?_reach a [id] x).2 fun hany => h ?_
  obtain ⟨s, hs, hx⟩ := hany
  rwa [List.mem_singleton.mp hs] at hx

end TermShell.Arena
