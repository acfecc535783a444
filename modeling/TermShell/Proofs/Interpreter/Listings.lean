import TermShell.Proofs.Interpreter.Lines
import TermShell.Proofs.Interpreter.Outcomes
import TermShell.Proofs.Tree.Trails

/-!
# Listing a place and going there

A path can be listed from where the user is, or the user can go there and list the current
directory. Both look the path up and ask for the same permission, each on its own, and they come to
the same: the same listing, or a refusal for the same reason that names the same place.

A listing has an entry for each child, whatever the number of the child stands for. That none is
missing takes a tree: numbers that stand for nothing would be passed over.
-/

namespace TermShell

/-- The entry shows the node that has this number: the number, its full name, whether it is a
directory, and its permissions. -/
def Listing.Entry.Shows (t : Tree) (id : Nat) (e : Entry) : Prop :=
  ∃ n, t.get? id = some n ∧ e.id = id ∧ e.fullName = n.fullName ∧
    e.isDirectory = n.isDirectory ∧ e.permissions = n.permissions

theorem Listing.Entry.shows_ofNode {t : Tree} {id : Nat} {n : Node} (h : t.get? id = some n) :
    Shows t id (ofNode n) := ⟨n, h, Tree.id_of_get? h, rfl, rfl, rfl⟩

/-- **Each child has an entry**, in the order of the children. -/
theorem Tree.Rooted.forall₂_entries {t : Tree} (ht : t.Rooted) {d : Node}
    (hd : t.get? d.id = some d) :
    List.Forall₂ (Listing.Entry.Shows t) d.children
      ((t.childrenOf d).map Listing.Entry.ofNode) := by
  have hthere : ∀ c ∈ d.children, ∃ n, t.get? c = some n := fun c hc => by
    obtain ⟨n, hn, _⟩ := ht.below d.id c ⟨d, hd, hc⟩
    exact ⟨n, hn⟩
  rw [childrenOf]
  generalize d.children = cs at hthere ⊢
  induction cs with
  | nil => exact .nil
  | cons c cs ih =>
    obtain ⟨n, hn⟩ := hthere c List.mem_cons_self
    rw [List.filterMap_cons_some hn, List.map_cons]
    exact .cons (Listing.Entry.shows_ofNode hn) (ih fun c hc => hthere c (List.mem_cons_of_mem _ hc))

namespace Volume

variable {v : Volume}

/-- **All that a listing can be**: there is nothing to be listed, the user may not read it, or it is
shown. -/
theorem list_cases (v : Volume) (path : Option String) :
    (v.listed? path = none ∧ v.list path = .error (.notADirectory (path.getD ""))) ∨
    ∃ d, v.listed? path = some d ∧
      ((d.permissions.userReads = false ∧
        v.list path = .error (.insufficientPermission (v.tree.path d))) ∨
      d.permissions.userReads = true ∧
        v.list path = .ok ⟨v.tree.path d, (v.tree.childrenOf d).map Listing.Entry.ofNode⟩) := by
  unfold list
  cases v.listed? path with
  | none => exact .inl ⟨rfl, rfl⟩
  | some d =>
    refine .inr ⟨d, rfl, ?_⟩
    cases hreads : d.permissions.userReads with
    | false => exact .inl ⟨rfl, by simp [hreads]⟩
    | true => exact .inr ⟨rfl, by simp [hreads]⟩

/-- A path is listed where it is looked up. -/
theorem listed?_some (v : Volume) (path : String) :
    v.listed? (some path) = v.resolveDirectory path := rfl

theorem directory?_of_listed (hv : v.tree.Sound) {path : Option String} {d : Node}
    (h : v.listed? path = some d) : v.tree.directory? d.id = some d := by
  cases path with
  | none =>
    obtain rfl : v.tree.currentDirectory = d := Option.some.inj h
    exact hv.directory?_currentDirectory
  | some path =>
    rw [listed?_some] at h
    exact directory?_resolveDirectory hv h

/-- **A listing is complete.** -/
theorem of_list (hv : v.tree.Sound) {path : Option String} {listing : Listing}
    (h : v.list path = .ok listing) :
    ∃ d, v.listed? path = some d ∧ listing.path = v.tree.path d ∧
      List.Forall₂ (Listing.Entry.Shows v.tree) d.children listing.entries := by
  rcases v.list_cases path with ⟨_, he⟩ | ⟨d, hd, ⟨_, he⟩ | ⟨_, he⟩⟩
  · exact absurd (he.symm.trans h) (by simp)
  · exact absurd (he.symm.trans h) (by simp)
  · obtain rfl := Except.ok.inj (he.symm.trans h)
    have hget := (Tree.directory?_eq_some_iff.mp (directory?_of_listed hv hd)).1
    exact ⟨d, hd, rfl, hv.rooted.forall₂_entries hget⟩

/-- Someone in a directory sees there what was to be seen from elsewhere. -/
theorem list_none_of_current {v' : Volume} {d : Node} (hd : v.tree.directory? d.id = some d)
    (htree : v'.tree = { v.tree with current := d.id }) (hreads : d.permissions.userReads = true) :
    v'.list none = .ok ⟨v.tree.path d, (v.tree.childrenOf d).map Listing.Entry.ofNode⟩ := by
  have hhere : v'.tree.currentDirectory = d :=
    Tree.currentDirectory_of_directory? (by rw [htree]; exact hd)
  have hpath : v'.tree.path d = v.tree.path d := by
    rw [htree, Tree.path, Tree.names_withCurrent, Tree.path]
  have hchildren : v'.tree.childrenOf d = v.tree.childrenOf d := by
    rw [htree]
    rfl
  rw [list, listed?, hhere]
  dsimp only
  rw [if_pos hreads, hpath, hchildren]

end Volume

namespace Interpreter

open Calendar (Instant)

variable {v : Volume} {path : String}

/--
**To list a path is to go there and look around.**

In an intact tree with a current directory, let a path be one word. The user can go there exactly if
the path can be listed, and then sees there the same listing, with the same path. If it means no
directory, or one that the user may not read, neither can be done, for the same reason, and both
refusals name the same. And every listing has an entry for each child of the directory, in order,
with its number, full name, kind and permissions.
-/
theorem list_shows_what_is_there (ht : v.tree.Intact)
    (hcurrent : ∃ d, v.tree.directory? v.tree.current = some d) (hpath : Solid path)
    (now : Instant) :
    let result := execute now v ("cd " ++ path)
    (result.2 = .silent ↔ ∃ listing, v.list (some path) = .ok listing) ∧
    (∀ listing, v.list (some path) = .ok listing → result.1.list none = .ok listing) ∧
    (result.2 = .message (quoted path ++ " is not a directory.") ↔
      v.list (some path) = .error (.notADirectory path)) ∧
    (∀ place, result.2 = .message ("Insufficient permissions to enter the " ++ quoted place ++
        " directory.") ↔
      v.list (some path) = .error (.insufficientPermission place)) ∧
    ∀ asked listing, v.list asked = .ok listing →
      ∃ d, v.listed? asked = some d ∧ listing.path = v.tree.path d ∧
        List.Forall₂ (Listing.Entry.Shows v.tree) d.children listing.entries := by
  intro result
  have hv := Tree.sound_of_current ht hcurrent
  have hother : ∀ place : String, quoted path ++ " is not a directory." ≠
      "Insufficient permissions to enter the " ++ quoted place ++ " directory." := fun place =>
    quoted_append_ne _ _ (by simp)
  have hcases := v.list_cases (some path)
  rw [Volume.listed?_some] at hcases
  rcases hcases with ⟨hd, he⟩ | ⟨d, hd, ⟨hreads, he⟩ | ⟨hreads, he⟩⟩
  · have hresult : result = _ := answers_changeDirectory_missing hpath hd now
    rw [hresult, he]
    exact ⟨iff_of_false (by simp) (by simp), by simp, iff_of_true rfl rfl,
      fun place => iff_of_false (by simp [hother]) (by simp), fun _ _ => Volume.of_list hv⟩
  · have hresult : result = _ := answers_changeDirectory_forbidden hpath hd hreads now
    rw [hresult, he]
    refine ⟨iff_of_false (by simp) (by simp), by simp, iff_of_false ?_ (by simp), fun place => ?_,
      fun _ _ => Volume.of_list hv⟩
    · exact fun hsame => hother _ (Outcome.message.inj hsame).symm
    · simp [quoted, ← String.toList_inj]
  · obtain ⟨v', hanswers, htree⟩ := answers_changeDirectory hv hpath hd hreads
    have hdir := Volume.directory?_resolveDirectory hv hd
    have hthere := Volume.list_none_of_current hdir htree hreads
    have hresult : result = _ := hanswers now
    rw [hresult, he]
    refine ⟨iff_of_true rfl ⟨_, rfl⟩, fun listing hlisting => ?_, iff_of_false (by simp) (by simp),
      fun place => iff_of_false (by simp) (by simp), fun _ _ => Volume.of_list hv⟩
    rw [← Except.ok.inj hlisting, hthere]

/-- The user has taken from themselves the leave to read the mail at home. The devices are found
from the root, five directories. -/
theorem list_shows_what_is_there_but_mail :
    let v := (execute ⟨0, 0⟩ Volume.standard "chp mail 100110").1
    let mail := "/users/user/home/mail"
    v.tree.Intact ∧ (∃ d, v.tree.directory? v.tree.current = some d) ∧ Solid "./mail" ∧
      Solid "system//device" ∧
      (execute ⟨0, 0⟩ v "cd ./mail").2 =
        .message ("Insufficient permissions to enter the " ++ quoted mail ++ " directory.") ∧
      v.list (some "./mail") = .error (.insufficientPermission mail) ∧
      (execute ⟨0, 0⟩ v "cd system//device").2 = .silent ∧
      ∃ listing d, v.list (some "system//device") = .ok listing ∧
        (execute ⟨0, 0⟩ v "cd system//device").1.list none = .ok listing ∧
        v.listed? (some "system//device") = some d ∧
        List.Forall₂ (Listing.Entry.Shows v.tree) d.children listing.entries ∧
        (listing.entries.map fun e => (e.fullName, e.isDirectory, e.permissions.bits)) =
          ["display", "input", "memory", "processor", "storage"].map fun name =>
            (name, true, "011001") := by
  intro v mail
  have hv : v.tree.Sound :=
    ((move_execute ⟨0, 0⟩ Tree.sound_standard _).sound Tree.sound_standard).1
  have hmail : Solid "./mail" := by decide +kernel
  have hdevice : Solid "system//device" := by decide +kernel
  have hstopped : (execute ⟨0, 0⟩ v "cd ./mail").2 =
      .message ("Insufficient permissions to enter the " ++ quoted mail ++ " directory.") := by
    decide +kernel
  have hgone : (execute ⟨0, 0⟩ v "cd system//device").2 = .silent := by decide +kernel
  obtain ⟨_, _, _, hforbidden, _⟩ :=
    list_shows_what_is_there hv.intact hv.current hmail ⟨0, 0⟩
  obtain ⟨hsilent, hthere, _, _, hcomplete⟩ :=
    list_shows_what_is_there hv.intact hv.current hdevice ⟨0, 0⟩
  obtain ⟨listing, hlisting⟩ := hsilent.mp hgone
  obtain ⟨d, hd, _, hentries⟩ := hcomplete _ _ hlisting
  have hshown : ∀ listing ∈ (v.list (some "system//device")).toOption,
      (listing.entries.map fun e => (e.fullName, e.isDirectory, e.permissions.bits)) =
        ["display", "input", "memory", "processor", "storage"].map fun name =>
          (name, true, "011001") := by
    decide +kernel
  exact ⟨hv.intact, hv.current, hmail, hdevice, hstopped, (hforbidden mail).mp hstopped, hgone,
    listing, d, hlisting, hthere listing hlisting, hd, hentries,
    hshown listing (by rw [hlisting]; rfl)⟩

end Interpreter

end TermShell
