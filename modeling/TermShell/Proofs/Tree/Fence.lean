import TermShell.Proofs.Tree.Moves

/-!
# Fences

Some nodes of a tree may be out of the user's reach without a rule that says so of them. A
`Fence` is what it takes: the user may not write what is to stay fixed, and everything to be
kept lies in a directory that stays fixed. Then no move changes any of it (`Move.keeps`).

The reason is the same in all five cases. A move changes children of the current directory, and
that one lets the user write. It is therefore not fixed, so none of its children is kept, and
nothing that is kept lies below one of them.
-/

namespace TermShell

/-- How much of a node may change. -/
inductive Zone where
  /-- Nothing. -/
  | fixed
  /-- The contents of a file. -/
  | written
  /-- The children of a directory. -/
  | furnished
  /-- Everything. -/
  | free
  deriving DecidableEq

/-- What is found is the node, but for what may change. -/
def Zone.Keeps (z : Zone) (n : Node) (found : Option Node) : Prop :=
  match z with
  | .fixed => found = some n
  | .written => ∃ contents, found = some (n.withContents contents)
  | .furnished => ∃ children, found = some (n.withChildren children)
  | .free => True

theorem Zone.Keeps.of_some (z : Zone) (n : Node) : z.Keeps n (some n) := by
  cases z with
  | fixed => exact rfl
  | written => exact ⟨n.text, by rcases n with ⟨_, _, _, _, _, _ | _⟩ <;> rfl⟩
  | furnished => exact ⟨n.children, by rw [Node.withChildren_children]⟩
  | free => trivial

/-- A node that is kept is there, in the same place and with the same permissions. -/
theorem Zone.Keeps.exists_some {z : Zone} {n : Node} {found : Option Node} (hz : z ≠ .free)
    (h : z.Keeps n found) :
    ∃ m, found = some m ∧ m.parent = n.parent ∧ m.permissions = n.permissions ∧
      m.isDirectory = n.isDirectory := by
  cases z with
  | fixed => exact ⟨n, h, rfl, rfl, rfl⟩
  | written =>
    obtain ⟨contents, rfl⟩ := h
    exact ⟨_, rfl, by simp, by simp, by simp⟩
  | furnished =>
    obtain ⟨children, rfl⟩ := h
    exact ⟨_, rfl, by simp, by simp, by simp⟩
  | free => exact absurd rfl hz

namespace Tree

variable {zone : Node → Zone} {t₀ t t' : Tree}

/-- A fence around what is to be kept of a tree. -/
structure Fence (zone : Node → Zone) (t₀ : Tree) : Prop where
  /-- The user may not write what stays fixed. -/
  barred : ∀ id n, t₀.get? id = some n → zone n = .fixed → n.permissions.userWrites = false
  /-- Only files are there to be written. -/
  file : ∀ id n, t₀.get? id = some n → zone n = .written → n.isFile = true
  /-- Only directories are there to be furnished. -/
  directory : ∀ id n, t₀.get? id = some n → zone n = .furnished → n.isDirectory = true
  /-- What is kept lies in something that stays fixed. -/
  inside : ∀ id n p, t₀.get? id = some n → zone n ≠ .free → n.parent = some p →
    ∃ m, t₀.get? p = some m ∧ zone m = .fixed

/-- Every node of the first tree is kept in the second as its zone demands. -/
def Keeps (zone : Node → Zone) (t₀ t : Tree) : Prop :=
  ∀ id n, t₀.get? id = some n → (zone n).Keeps n (t.get? id)

/-- A number that stands for a node to be kept. -/
def Guarded (zone : Node → Zone) (t₀ : Tree) (id : Nat) : Prop :=
  ∃ n, t₀.get? id = some n ∧ zone n ≠ .free

theorem Keeps.refl (zone : Node → Zone) (t₀ : Tree) : Keeps zone t₀ t₀ :=
  fun _ n hn => hn ▸ Zone.Keeps.of_some (zone n) n

/-- What is guarded is still there. -/
theorem Keeps.exists_of_guarded (hk : Keeps zone t₀ t) {id : Nat} (h : Guarded zone t₀ id) :
    ∃ m, t.get? id = some m := by
  obtain ⟨n, hn, hz⟩ := h
  obtain ⟨m, hm, _⟩ := (hk id n hn).exists_some hz
  exact ⟨m, hm⟩

/-! ## Where the guarded nodes lie -/

/-- **What lists a guarded node is fixed.** -/
theorem Keeps.fixed_of_lists (hk : Keeps zone t₀ t) (hf : Fence zone t₀) (ht : t.Rooted)
    {p id : Nat} (h : Guarded zone t₀ id) (hl : t.arena.Lists p id) :
    ∃ m, t₀.get? p = some m ∧ zone m = .fixed := by
  obtain ⟨n, hn, hz⟩ := h
  obtain ⟨m, hm, hparent, _⟩ := (hk id n hn).exists_some hz
  exact hf.inside id n p hn hz (hparent ▸ ht.parent_eq hl hm)

/-- What leads to a guarded node is guarded. -/
theorem Keeps.guarded_of_leads (hk : Keeps zone t₀ t) (hf : Fence zone t₀) (ht : t.Rooted)
    {id x : Nat} (h : Guarded zone t₀ x) (hx : t.arena.Leads id x) : Guarded zone t₀ id := by
  induction hx with
  | refl => exact h
  | tail _ hl ih =>
    -- the lister is fixed, so it is guarded in its turn
    obtain ⟨m, hm, hfixed⟩ := hk.fixed_of_lists hf ht h hl
    exact ih ⟨m, hm, by simp [hfixed]⟩

/-- **A directory in which the user may write is not fixed.** -/
theorem Keeps.not_fixed_of_open (hk : Keeps zone t₀ t) (hf : Fence zone t₀) (ho : t.Open)
    {n : Node} (hn : t₀.get? t.current = some n) : zone n ≠ .fixed := by
  intro hfixed
  obtain ⟨d, hd, hwrites⟩ := ho
  have hkept := hk t.current n hn
  rw [hfixed] at hkept
  obtain rfl := Option.some.inj ((directory?_eq_some_iff.mp hd).1.symm.trans hkept)
  exact absurd hwrites (by simp [hf.barred _ _ hn hfixed])

/-- So it lists nothing that is guarded, and nothing that leads there. -/
theorem Keeps.not_leads_of_open (hk : Keeps zone t₀ t) (hf : Fence zone t₀) (ht : t.Rooted)
    (ho : t.Open) {id x : Nat} (hl : t.arena.Lists t.current id) (h : Guarded zone t₀ x) :
    ¬ t.arena.Leads id x := by
  intro hx
  obtain ⟨m, hm, hfixed⟩ := hk.fixed_of_lists hf ht (hk.guarded_of_leads hf ht h hx) hl
  exact hk.not_fixed_of_open hf ho hm hfixed

/-! ## Moves -/

/-- Other children for the current directory are allowed for, if it is guarded at all. -/
theorem Keeps.withChildren (hk : Keeps zone t₀ t) (hf : Fence zone t₀) (ho : t.Open)
    {n d : Node} (hn : t₀.get? t.current = some n) (hd : t.directory? t.current = some d)
    (children : List Nat) : (zone n).Keeps n (some (d.withChildren children)) := by
  have hkept := hk t.current n hn
  obtain ⟨hget, hdir⟩ := directory?_eq_some_iff.mp hd
  rw [hget] at hkept
  cases hz : zone n with
  | fixed => exact absurd hz (hk.not_fixed_of_open hf ho hn)
  | written =>
    -- a file is not a current directory
    obtain ⟨m, hm, _, _, hsame⟩ := hkept.exists_some (by simp [hz])
    rw [← Option.some.inj hm, hdir] at hsame
    have hfile := hf.file _ n hn hz
    rw [Node.isFile, ← hsame] at hfile
    exact absurd hfile (by simp)
  | furnished =>
    rw [hz] at hkept
    obtain ⟨children', hd'⟩ := hkept
    exact ⟨children, by rw [Option.some.inj hd', Node.withChildren_withChildren]⟩
  | free => trivial

/-- Other contents for a file that the user may write are allowed for, if it is guarded at all. -/
theorem Keeps.withContents (hk : Keeps zone t₀ t) (hf : Fence zone t₀) {id : Nat} {n m : Node}
    (hn : t₀.get? id = some n) (hm : t.get? id = some m) (hfile : m.isFile = true)
    (hwrites : m.permissions.userWrites = true) (contents : String) :
    (zone n).Keeps n (some (m.withContents contents)) := by
  have hkept := hk id n hn
  rw [hm] at hkept
  cases hz : zone n with
  | fixed =>
    rw [hz] at hkept
    rw [Option.some.inj hkept, hf.barred _ n hn hz] at hwrites
    exact absurd hwrites (by simp)
  | written =>
    rw [hz] at hkept
    obtain ⟨contents', hm'⟩ := hkept
    exact ⟨contents, by rw [Option.some.inj hm', Node.withContents_withContents]⟩
  | furnished =>
    -- a directory is not a file to be written
    obtain ⟨k, hm', _, _, hsame⟩ := hkept.exists_some (by simp [hz])
    rw [← Option.some.inj hm', hf.directory _ n hn hz] at hsame
    rw [Node.isFile, hsame] at hfile
    exact absurd hfile (by simp)
  | free => trivial

/-- **No move changes what is kept.** -/
theorem Move.keeps (h : Move t t') (hf : Fence zone t₀) (ht : t.Sound) (hk : Keeps zone t₀ t) :
    Keeps zone t₀ t' := by
  intro id n hn
  by_cases hfree : zone n = .free
  · rw [hfree]
    trivial
  -- from here on the node is guarded: it is still there, and no move may touch it
  have hguarded : Guarded zone t₀ id := ⟨n, hn, hfree⟩
  have hthere := hk.exists_of_guarded hguarded
  cases h with
  | stay => exact hk id n hn
  | go _ => exact hk id n hn
  | @append m _ ho happ =>
    have hnew : id ≠ m.id := by
      intro he
      obtain ⟨k, hk⟩ := hthere
      rw [he, happ.fresh] at hk
      exact absurd hk (by simp)
    by_cases hcur : id = t.current
    · obtain ⟨d, hd, hd'⟩ := happ.into
      subst hcur
      rw [hd']
      exact hk.withChildren hf ho hn hd _
    · rw [happ.others id hnew hcur]
      exact hk id n hn
  | @repermit m _ _ ho hl halt =>
    -- what is repermitted is listed by the current directory
    have hother : id ≠ m.id := fun he =>
      hk.not_leads_of_open hf ht.rooted ho hl hguarded (he ▸ .refl)
    rw [halt.others id hother]
    exact hk id n hn
  | remove ho hrem =>
    have hkept := hk.not_leads_of_open hf ht.rooted ho hrem.listed hguarded
    -- what is removed does not lead here, but it may have been a child of this node
    by_cases hcur : id = t.current
    · obtain ⟨d, hd, hd'⟩ := hrem.out
      subst hcur
      rw [hd']
      exact hk.withChildren hf ho hn hd _
    · rw [hrem.others id hkept hcur]
      exact hk id n hn
  | @write m contents _ hfile hwrites halt =>
    by_cases hm : id = m.id
    · subst hm
      rw [halt.after]
      exact hk.withContents hf hn halt.before hfile hwrites contents
    · rw [halt.others id hm]
      exact hk id n hn

/-- What is kept is kept by any number of moves. -/
theorem Moves.keeps (h : Moves t t') (hf : Fence zone t₀) (ht : t.Sound) (hk : Keeps zone t₀ t) :
    Keeps zone t₀ t' := by
  induction h with
  | refl => exact hk
  | tail hmoves hmove ih => exact hmove.keeps hf (Moves.sound hmoves ht).1 ih

end Tree

end TermShell
