import TermShell.Interpreter
import TermShell.Proofs.Tree.History
import TermShell.Proofs.Volume

/-!
# What a line does

Six commands change something: one moves the user, two make something, one gives other
permissions, two delete. `Deed` says what such a command does when it does something, with the
outcome it then has; `Reports` says which outcomes the user takes for success. A line has been
`Settled` if either nothing has changed and no success is reported, or the deed has been done
and is reported. In the first case it may still ask something of the host, which then has to be
`Feasible`.

Every handler gets one lemma of this shape, and they are put together for all commands and all
lines. The permission that a handler asks for is that of the current directory as it is shown,
the change is made at its number; that these are the same is why the tree has to be sound.
-/

namespace TermShell.Interpreter

open Calendar (Instant)

/-- What a command that changes something does, and what it then says. -/
inductive Deed (v : Volume) (l : CommandLine) : Command → Tree → Outcome → Prop where
  /-- The user goes to a directory that they may read. -/
  | went (d : Node) :
      v.resolveDirectory l.first = some d → v.tree.directory? d.id = some d →
      d.permissions.userReads = true →
      Deed v l .changeDirectory { v.tree with current := d.id } .silent
  /-- An empty file is now the last child of the current directory. -/
  | madeFile (n : Node) (t' : Tree) :
      v.allows ⟨.user, .write⟩ = true → v.Makes l.first n → n.isFile = true →
      v.tree.Appended v.tree.current n t' →
      Deed v l .makeFile t' .silent
  /-- An empty directory is now the last child of the current one. -/
  | madeDirectory (n : Node) (t' : Tree) :
      v.allows ⟨.user, .write⟩ = true → v.Makes l.first n → n.isDirectory = true →
      v.tree.Appended v.tree.current n t' →
      Deed v l .makeDirectory t' .silent
  /-- A child of the current directory has other permissions. -/
  | repermitted (n : Node) (permissions : PermissionSet) (t' : Tree) :
      v.allows ⟨.user, .write⟩ = true → v.find l.first Tree.anyKind = .ok n →
      v.tree.arena.Lists v.tree.current n.id → PermissionSet.parse l.second = .ok permissions →
      v.tree.Altered n { n with permissions } t' →
      Deed v l .changePermissions t'
        (.message (quoted l.first ++ " permissions updated to " ++ permissions.bits ++ "."))
  /-- A file of the current directory is gone, and nothing else. -/
  | deletedFile (n : Node) (t' : Tree) :
      v.allows ⟨.user, .write⟩ = true → v.find l.first Node.isFile = .ok n →
      v.tree.Removed v.tree.current n.id t' → t'.current = v.tree.current →
      (∀ x, v.tree.arena.Leads n.id x → x = n.id) →
      Deed v l .deleteFile t' (.message (quoted l.first ++ " deleted."))
  /-- A directory in the current one is gone with all below it. Unless one of the words behind its
  name asks for that, there was nothing below it. -/
  | deletedDirectory (n : Node) (t' : Tree) :
      v.allows ⟨.user, .write⟩ = true → v.find l.first Node.isDirectory = .ok n →
      v.tree.Removed v.tree.current n.id t' → t'.current = v.tree.current →
      ((∃ word ∈ l.arguments.tail, word = "-r" ∨ word = "--recurse") ∨
        ∀ x, v.tree.arena.Leads n.id x → x = n.id) →
      Deed v l .deleteDirectory t' (.message (quoted l.first ++ " deleted."))

/-- The outcomes by which a command says that it has changed something. -/
def Reports (l : CommandLine) (c : Command) (o : Outcome) : Prop :=
  match c with
  | .changeDirectory | .makeFile | .makeDirectory => o = .silent
  | .changePermissions => ∃ permissions : PermissionSet,
      o = .message (quoted l.first ++ " permissions updated to " ++ permissions.bits ++ ".")
  | .deleteFile | .deleteDirectory => o = .message (quoted l.first ++ " deleted.")
  | _ => False

/-- What the outcome asks of the host can be done: a file to be edited is there and the user may
write it, and a colour is written as one. -/
def Feasible (v : Volume) : Outcome → Prop
  | .edit file => ∃ n, v.tree.get? file = some n ∧ n.isFile = true ∧
      n.permissions.userWrites = true
  | .color _ hex => ∃ c : Rgb, hex = c.hex
  | _ => True

/-- Nothing has changed and no success is reported, or the deed is done. -/
def Settled (v : Volume) (l : CommandLine) (c : Command) (r : Volume × Outcome) : Prop :=
  (r.1 = v ∧ Feasible v r.2 ∧ ¬ Reports l c r.2) ∨ Deed v l c r.1.tree r.2

variable {v : Volume} {l : CommandLine}

/-! ## Messages that are not mistaken for success -/

/-- What begins with something in quotes does not begin otherwise. -/
theorem quoted_append_ne (name rest : String) {s : String} (hs : s.toList.head? ≠ some '"') :
    quoted name ++ rest ≠ s := by
  intro he
  rw [← he] at hs
  exact hs (by simp [quoted])

theorem not_reports_deleted {c : Command} (hc : c = .deleteFile ∨ c = .deleteDirectory)
    {s : String} (hs : s.toList.head? ≠ some '"') : ¬ Reports l c (.message s) := by
  rcases hc with rfl | rfl
  · exact fun h => quoted_append_ne _ _ hs (Outcome.message.inj h).symm
  · exact fun h => quoted_append_ne _ _ hs (Outcome.message.inj h).symm

theorem not_reports_repermitted {s : String} (hs : s.toList.head? ≠ some '"') :
    ¬ Reports l .changePermissions (.message s) := by
  intro hex
  obtain ⟨permissions, h⟩ := hex
  rw [String.append_assoc, String.append_assoc] at h
  exact quoted_append_ne _ _ hs (Outcome.message.inj h).symm

/-- The complaint about malformed permissions ends in a quotation mark before the full stop,
and a report of success in a digit. -/
theorem not_reports_malformed (text : String) :
    ¬ Reports l .changePermissions (.message (quoted text ++
      " is not a valid permission set. Permission sets are " ++
        "exactly 6 characters of \"0\" or \"1\".")) := by
  intro hex
  obtain ⟨permissions, h⟩ := hex
  -- read from the end, the two differ in the second character
  have hrev := congrArg (List.reverse ∘ String.toList) (Outcome.message.inj h)
  simp [quoted, PermissionSet.bits, Permission.all] at hrev

/-! ## Handlers that change nothing -/

theorem settled_viewFile (l : CommandLine) (v : Volume) :
    Settled v l .viewFile (v, viewFile v l) := by
  unfold viewFile
  split
  · exact .inl ⟨rfl, trivial, id⟩
  · split
    · exact .inl ⟨rfl, trivial, id⟩
    · split <;> exact .inl ⟨rfl, trivial, id⟩

theorem settled_viewPermissions (l : CommandLine) (v : Volume) :
    Settled v l .viewPermissions (v, viewPermissions v l) := by
  unfold viewPermissions
  split <;> exact .inl ⟨rfl, trivial, id⟩

theorem settled_editFile (hv : v.tree.Sound) : Settled v l .editFile (v, editFile v l) := by
  unfold editFile
  split
  · rename_i file hfind
    obtain ⟨hn, _, hf⟩ := Volume.of_find hv hfind
    split
    · rename_i hwrites
      exact .inl ⟨rfl, ⟨file, hn, hf, hwrites⟩, id⟩
    · exact .inl ⟨rfl, trivial, id⟩
  · exact .inl ⟨rfl, trivial, id⟩
  · exact .inl ⟨rfl, trivial, id⟩

theorem settled_changeColor (l : CommandLine) (v : Volume) :
    Settled v l .color (v, changeColor v l) := by
  unfold changeColor
  split
  · exact .inl ⟨rfl, ⟨_, rfl⟩, id⟩
  · exact .inl ⟨rfl, trivial, id⟩

/-! ## Handlers that change something -/

theorem settled_changeDirectory (hv : v.tree.Sound) :
    Settled v l .changeDirectory (changeDirectory v l) := by
  unfold changeDirectory
  split
  · exact .inl ⟨rfl, trivial, by simp [Reports]⟩
  · rename_i d hd
    split
    · rename_i hreads
      have hdir := Volume.directory?_resolveDirectory hv hd
      refine .inr ?_
      rw [Volume.tree_setCurrent hdir]
      exact .went d hd hdir hreads
    · exact .inl ⟨rfl, trivial, by simp [Reports]⟩

/-- Making something is settled if it is a deed to have made it. -/
theorem settled_made {c : Command} (hc : c = .makeFile ∨ c = .makeDirectory)
    {r : Except VolumeError Volume} (hok : ∀ v', r = .ok v' → Deed v l c v'.tree .silent) :
    Settled v l c (made v l.first r) := by
  cases r with
  | ok v' => exact .inr (hok v' rfl)
  | error e =>
    -- whatever the refusal is, it is told
    have hloud : notMade l.first e ≠ .silent := by cases e <;> simp [notMade, failed]
    refine .inl ⟨rfl, ?_, ?_⟩
    · show Feasible v (notMade l.first e)
      cases e <;> trivial
    · rcases hc with rfl | rfl
      · exact hloud
      · exact hloud

theorem settled_makeFile (l : CommandLine) (v : Volume) :
    Settled v l .makeFile (makeFile v l) := by
  unfold makeFile
  split
  · rename_i hallows
    refine settled_made (.inl rfl) fun v' hmade => ?_
    obtain ⟨n, hn, hf, happ⟩ := Volume.of_createFile hmade
    exact .madeFile n _ hallows hn hf happ
  · exact .inl ⟨rfl, trivial, by simp [Reports]⟩

theorem settled_makeDirectory (l : CommandLine) (v : Volume) :
    Settled v l .makeDirectory (makeDirectory v l) := by
  unfold makeDirectory
  split
  · rename_i hallows
    refine settled_made (.inr rfl) fun v' hmade => ?_
    obtain ⟨n, hn, hdir, happ⟩ := Volume.of_createDirectory hmade
    exact .madeDirectory n _ hallows hn hdir happ
  · exact .inl ⟨rfl, trivial, by simp [Reports]⟩

theorem settled_changePermissions (hv : v.tree.Sound) :
    Settled v l .changePermissions (changePermissions v l) := by
  unfold changePermissions
  split
  swap
  · exact .inl ⟨rfl, trivial, not_reports_repermitted (by simp)⟩
  rename_i hallows
  cases hfind : v.find l.first Tree.anyKind with
  | error e => exact .inl ⟨rfl, trivial, not_reports_repermitted (by simp)⟩
  | ok n =>
    obtain ⟨hn, hl, _⟩ := Volume.of_find hv hfind
    cases hparse : PermissionSet.parse l.second with
    | error e => exact .inl ⟨rfl, trivial, not_reports_malformed l.second⟩
    | ok permissions =>
      -- the node has been found in the tree, so the change cannot be refused
      obtain ⟨v', hset, halt⟩ := Volume.setPermissions_of_get? hn permissions
      refine .inr ?_
      simp only [hset]
      exact .repermitted n permissions _ hallows hfind hl hparse halt

/-- **A child is deleted if one has been found.** The answer of the volume is not looked at, but
in a sound tree it could only be yes. -/
theorem deleteChild_of_lists (hv : v.tree.Sound) (name : String) {id : Nat}
    (hl : v.tree.arena.Lists v.tree.current id) :
    ∃ v', deleteChild v name id = (v', .message (quoted name ++ " deleted.")) ∧
      v.tree.Removed v.tree.current id v'.tree ∧ v'.tree.current = v.tree.current := by
  obtain ⟨v', hdel, hrem, hcur⟩ := Volume.delete_of_lists hv hl
  exact ⟨v', by rw [deleteChild, hdel], hrem, hcur⟩

theorem settled_deleteFile (hv : v.tree.Sound) : Settled v l .deleteFile (deleteFile v l) := by
  unfold deleteFile
  split
  swap
  · exact .inl ⟨rfl, trivial, not_reports_deleted (.inl rfl) (by simp)⟩
  rename_i hallows
  cases hfind : v.find l.first Node.isFile with
  | error e =>
    cases e <;> exact .inl ⟨rfl, trivial, not_reports_deleted (.inl rfl) (by simp)⟩
  | ok n =>
    obtain ⟨hn, hl, hf⟩ := Volume.of_find hv hfind
    obtain ⟨v', hdel, hrem, hcur⟩ := deleteChild_of_lists hv l.first hl
    refine .inr ?_
    simp only [hdel]
    exact .deletedFile n _ hallows hfind hrem hcur fun x =>
      Tree.alone_of_childless hn (Node.children_of_isFile hf)

/-- The flags that let a directory be deleted with all that is in it. -/
theorem recurses_iff {l : CommandLine} :
    recurses l = true ↔ ∃ word ∈ l.arguments.tail, word = "-r" ∨ word = "--recurse" := by
  simp [recurses, recurseFlags]

theorem settled_deleteDirectory (hv : v.tree.Sound) :
    Settled v l .deleteDirectory (deleteDirectory v l) := by
  unfold deleteDirectory
  split
  swap
  · exact .inl ⟨rfl, trivial, not_reports_deleted (.inr rfl) (by simp)⟩
  rename_i hallows
  cases hfind : v.find l.first Node.isDirectory with
  | error e =>
    cases e <;> exact .inl ⟨rfl, trivial, not_reports_deleted (.inr rfl) (by simp)⟩
  | ok n =>
    obtain ⟨hn, hl, _⟩ := Volume.of_find hv hfind
    obtain ⟨v', hdel, hrem, hcur⟩ := deleteChild_of_lists hv l.first hl
    dsimp only
    split
    · rename_i hmay
      refine .inr ?_
      rw [hdel]
      refine .deletedDirectory n _ hallows hfind hrem hcur ?_
      -- without the flag the directory is empty, and it alone is removed
      rcases Bool.or_eq_true_iff.mp hmay with hrec | hnil
      · exact .inl (recurses_iff.mp hrec)
      · exact .inr fun x => Tree.alone_of_childless hn (List.isEmpty_iff.mp hnil)
    · exact .inl ⟨rfl, trivial, not_reports_deleted (.inr rfl) (by simp)⟩

/-! ## Help pages -/

/-- A page has lines, unless it is empty or there is only the notice that there is none. -/
theorem newline_mem_page (v : Volume) (c : Command) :
    '\n' ∈ (Help.page v c).toList ∨ Help.page v c = "" ∨
      (Help.page v c).toList.head? = some 'N' := by
  unfold Help.page
  split
  · rename_i program _
    unfold Help.pageOf
    cases hrecords : HelpRecord.decodeAll program.text with
    | nil => exact .inr (.inl rfl)
    | cons r rest =>
      left
      have hsection : '\n' ∈ (Help.sectionText r).toList := by simp [Help.sectionText]
      cases rest with
      | nil => simpa using hsection
      | cons r' rest => simp [String.intercalate_cons_cons, hsection]
  · exact .inr (.inr (by simp))

theorem newline_not_mem_bits (s : PermissionSet) : '\n' ∉ s.bits.toList := by
  rw [PermissionSet.bits, String.toList_ofList]
  intro h
  obtain ⟨p, _, hp⟩ := List.mem_map.mp h
  split at hp
  · exact absurd hp (by decide)
  · exact absurd hp (by decide)

/-- A page of help is not mistaken for success. -/
theorem not_reports_page (v : Volume) (hbare : l.isBare = true) (c : Command) :
    ¬ Reports l c (.message (Help.page v c)) := by
  have hfirst : l.first = "" := by
    simp [CommandLine.first, List.isEmpty_iff.mp hbare]
  -- no report of success has a line break, is empty or begins like the notice
  have hpage : ∀ s : String, '\n' ∉ s.toList → s.toList.head? = some '"' →
      Outcome.message (Help.page v c) ≠ .message s := by
    intro s hline hquote he
    rw [← Outcome.message.inj he] at hline hquote
    rcases newline_mem_page v c with h | h | h
    · exact hline h
    · simp [h] at hquote
    · simp [h] at hquote
  cases c with
  | changePermissions =>
    intro hex
    obtain ⟨permissions, h⟩ := hex
    rw [hfirst] at h
    exact hpage _ (by simp [quoted, newline_not_mem_bits]) (by simp [quoted]) h
  | deleteFile | deleteDirectory =>
    intro h
    unfold Reports at h
    rw [hfirst] at h
    exact hpage _ (by decide +kernel) (by decide +kernel) h
  | _ => simp [Reports]

/-! ## Lines -/

theorem settled_perform (now : Instant) (hv : v.tree.Sound) (c : Command) :
    Settled v l c (perform now v c l) := by
  cases c with
  | changeDirectory => exact settled_changeDirectory hv
  | makeFile => exact settled_makeFile l v
  | makeDirectory => exact settled_makeDirectory l v
  | changePermissions => exact settled_changePermissions hv
  | deleteFile => exact settled_deleteFile hv
  | deleteDirectory => exact settled_deleteDirectory hv
  | viewFile => exact settled_viewFile l v
  | viewPermissions => exact settled_viewPermissions l v
  | editFile => exact settled_editFile hv
  | color => exact settled_changeColor l v
  | _ => exact .inl ⟨rfl, trivial, id⟩

theorem Deed.needsArgument {c : Command} {t' : Tree} {o : Outcome} (h : Deed v l c t' o) :
    c.needsArgument = true := by
  cases h <;> rfl

theorem settled_run (now : Instant) (hv : v.tree.Sound) {c : Command} (hc : l.command? = some c) :
    ((run now v l).1 = v ∧ Feasible v (run now v l).2 ∧ ¬ Reports l c (run now v l).2) ∨
      l.isBare = false ∧ Deed v l c (run now v l).1.tree (run now v l).2 := by
  unfold run
  rw [hc]
  dsimp only
  split
  · rename_i hhelp
    exact .inl ⟨rfl, trivial, not_reports_page v (Bool.and_eq_true_iff.mp hhelp).2 c⟩
  · rename_i hnot
    rcases settled_perform now hv c with hsame | hdeed
    · exact .inl hsame
    · refine .inr ⟨?_, hdeed⟩
      simpa [hdeed.needsArgument] using hnot

/-- The line names a command. -/
def Names (line : String) (l : CommandLine) (c : Command) : Prop :=
  CommandLine.parse line = some l ∧ l.command? = some c

theorem Names.execute_eq {line : String} {c : Command} (h : Names line l c) (now : Instant)
    (v : Volume) : execute now v line = run now v l := by
  rw [execute, h.1]

theorem Names.unique {line : String} {l' : CommandLine} {c c' : Command} (h : Names line l c)
    (h' : Names line l' c') : l' = l ∧ c' = c := by
  obtain rfl := Option.some.inj (h'.1.symm.trans h.1)
  exact ⟨rfl, Option.some.inj (h'.2.symm.trans h.2)⟩

/-- A line that names no command changes nothing and asks for nothing. -/
theorem execute_of_not_names (now : Instant) (v : Volume) {line : String}
    (h : ¬ ∃ l c, Names line l c) :
    (execute now v line).1 = v ∧ Feasible v (execute now v line).2 := by
  unfold execute
  split
  · exact ⟨rfl, trivial⟩
  · rename_i l hl
    cases hc : l.command? with
    | none =>
      rw [run, hc]
      exact ⟨rfl, trivial⟩
    | some c => exact absurd ⟨l, c, hl, hc⟩ h

/-- Carrying out a line changes nothing or does the deed of its command. -/
theorem execute_cases (now : Instant) (hv : v.tree.Sound) (line : String) :
    ((execute now v line).1 = v ∧ Feasible v (execute now v line).2) ∨
      ∃ l c, Deed v l c (execute now v line).1.tree (execute now v line).2 := by
  by_cases h : ∃ l c, Names line l c
  · obtain ⟨l, c, hl⟩ := h
    rw [hl.execute_eq]
    rcases settled_run now hv hl.2 with ⟨hsame, hfeasible, _⟩ | ⟨_, hdeed⟩
    · exact .inl ⟨hsame, hfeasible⟩
    · exact .inr ⟨l, c, hdeed⟩
  · exact .inl (execute_of_not_names now v h)

end TermShell.Interpreter
