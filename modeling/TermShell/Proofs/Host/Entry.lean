import TermShell.Proofs.Host.Muted
import TermShell.Proofs.Host.Runs
import TermShell.Proofs.Host.Tidy
import TermShell.Proofs.Interpreter.Lines
import TermShell.Proofs.Tree.Growth
import TermShell.Proofs.Tree.Overwrite

/-!
# Files written by a script

A script that opens the editor has the lines for the file among its own. It is prepared as a whole,
before any line is taken, so the lines for the file are prepared as if they were commands: blanks
at their ends are gone, and those that are blank or begin with a `#` are left out. A line may even
become the one that ends the input, and the lines behind it are commands then.

So a file gets the lines as they are if each of them is plain, and only then (`note_contents`).
That it is only then follows in two ways. If the input is ended where it should be, the file holds
the prepared lines, and these are other ones. If it is ended too early, some line has a blank at
its end; but no script writes one, whatever the lines do that have become commands (`tidied_run`).
-/

namespace TermShell

open Calendar (Instant)

namespace Host

/-- The lines of someone who makes a file, writes lines to it and leaves the shell. -/
def noteLines (name : String) (lines : List String) : List String :=
  ["mf " ++ name, "edit " ++ name] ++ lines ++ [terminator, "exit"]

/-- The editor takes lines up to the one that ends its input. -/
theorem collect_lines {lines : List String} (h : ∀ line ∈ lines, line ≠ terminator)
    (rest : List String) :
    collect ((lines ++ terminator :: rest).map .line) =
      ⟨lines, lines ++ [terminator], rest.map .line, none⟩ := by
  rw [List.map_append, List.map_cons, collect_append h, collect, if_pos rfl, List.append_nil]

variable {h : Host} {name : String}

section Run

variable (hrunning : h.running = true)
include hrunning

theorem run_of_silent {v : Volume} {line : String}
    (he : Interpreter.execute h.now h.volume line = (v, .silent)) (scripted : Bool)
    (readings : List Reading) :
    (h.run scripted (.line line :: readings)).muted =
      (run { h with volume := v, steps := h.steps + 1 } scripted readings).muted := by
  have hstep : h.step line scripted readings =
      ⟨{ h with volume := v, steps := h.steps + 1 }, readings, none⟩ := by
    unfold step enter
    rw [he]
    rfl
  rw [muted_run_line hrunning (by rw [hstep]), hstep]

theorem run_of_exit (scripted : Bool) (readings : List Reading) :
    (h.run scripted (.line "exit" :: readings)).muted =
      ⟨{ h with steps := h.steps + 1, running := false, output := "" }, readings, none⟩ := by
  have hstep := step_of_exit (Interpreter.answers_exit h.volume h.now) scripted readings
  rw [muted_run_line hrunning (by rw [hstep]), hstep, run.eq_def]
  rfl

/-- The lines behind one that opens the editor are written to the file, up to the one that ends the
input. -/
theorem run_of_edit {line : String} {n : Node}
    (he : Interpreter.execute h.now h.volume line = (h.volume, .edit n.id))
    (hn : h.volume.tree.get? n.id = some n) (hf : n.isFile = true) {lines : List String}
    (hlines : ∀ line ∈ lines, line ≠ terminator) (scripted : Bool) (rest : List String) :
    ∃ v, h.volume.tree.Altered n (n.withContents (String.intercalate "\n" lines)) v.tree ∧
      (h.run scripted (.line line :: (lines ++ terminator :: rest).map .line)).muted =
        (run { h with volume := v, steps := h.steps + 1 } scripted (rest.map .line)).muted := by
  let h' : Host := { h with steps := h.steps + 1 }
  have hstep : ∀ readings,
      h.step line scripted readings = h'.edit n.id n.fullName scripted readings :=
    step_of_edit he hn scripted
  obtain ⟨v, output, hhost⟩ := h'.edit_host n.id n.fullName scripted
    ((lines ++ terminator :: rest).map .line)
  rcases h'.edit_cases hn hf n.fullName scripted ((lines ++ terminator :: rest).map .line) with
    ⟨hfails, _⟩ | ⟨hfault, halt⟩
  · exact absurd hfails (not_readingFails_lines _ _)
  rw [collect_lines hlines, hhost] at halt
  refine ⟨v, halt, ?_⟩
  rw [muted_run_line hrunning (by rw [hstep, hfault]), hstep, rest_edit, collect_lines hlines,
    hhost]
  refine muted_run ?_ scripted scripted _
  rfl

end Run

/-- **A file is made and gets the lines**, in a directory in which the user may write and which
has no files. -/
theorem run_noteLines (hrunning : h.running = true) (hs : h.volume.tree.Sound)
    (hallows : h.volume.allows ⟨.user, .write⟩ = true)
    (hdirs : ∀ m ∈ h.volume.tree.childrenOf h.volume.tree.currentDirectory, m.isDirectory = true)
    (hname : Path.isValidName name = true) (hsolid : Interpreter.Solid name)
    {lines : List String} (hlines : ∀ line ∈ lines, line ≠ terminator) :
    let turn := h.run true ((noteLines name lines).map .line)
    let t := turn.host.volume.tree
    turn.fault = none ∧ turn.host.running = false ∧ turn.host.steps = h.steps + 3 ∧
      h.volume.tree.GrowsTo t ∧
      ∃ d f, h.volume.tree.Becomes t h.volume.tree.currentDirectory d ∧
        t.findChild d name Node.isFile = some f ∧ f.text = String.intercalate "\n" lines := by
  intro turn t
  have hcurrent := hs.directory?_current
  -- the file is made
  obtain ⟨v₁, n, hmake, hmakes, hfile, happ⟩ :=
    Interpreter.answers_makeFile hs hallows hname hsolid
  have hcalled : n.Called name := .inl hmakes.fullName
  obtain ⟨d₁, hd₁, hfind₁⟩ := happ.findChild_file hs.rooted hcurrent happ.growsTo rfl happ.new hfile
    hcalled hdirs
  have hhere : v₁.tree.directory? v₁.tree.current = some d₁ := by
    rw [happ.current]
    exact Tree.directory?_eq_some_iff.mpr
      ⟨hd₁, Node.isDirectory_of_mem_children (Tree.of_findChild hfind₁).2.1⟩
  have hfound := Volume.find_of_findChild hsolid.1 hhere hfind₁
  -- the editor is opened on it, and takes the lines
  have hedit := Interpreter.answers_editFile hsolid hfound hmakes.userWrites h.now
  obtain ⟨v₂, halt, hrun⟩ := run_of_edit (h := { h with volume := v₁, steps := h.steps + 1 })
    hrunning hedit happ.new hfile hlines true ["exit"]
  have hend : turn.muted = ⟨{ h with
      volume := v₂, steps := h.steps + 3, running := false, output := "" }, [], none⟩ := by
    have hreadings : (noteLines name lines).map Reading.line = .line ("mf " ++ name) ::
        .line ("edit " ++ name) :: (lines ++ terminator :: ["exit"]).map .line := by
      simp [noteLines]
    show (h.run true ((noteLines name lines).map .line)).muted = _
    rw [hreadings, run_of_silent hrunning (hmake h.now), hrun]
    exact run_of_exit (h := { h with volume := v₂, steps := h.steps + 2 }) hrunning true []
  have hgrows := happ.growsTo.trans (halt.growsTo (.withContents n _))
  have hp : v₂.tree.get? h.volume.tree.current = v₁.tree.get? h.volume.tree.current := by
    refine halt.others _ fun hid => ?_
    exact absurd (happ.fresh.symm.trans (hid ▸ hs.get?_current)) (by simp)
  obtain ⟨d₂, hd₂, hfind₂⟩ := happ.findChild_file hs.rooted hcurrent hgrows hp halt.after
    (by simpa [Node.isFile] using hfile) (by simpa [Node.Called] using hcalled) hdirs
  have ht : t = v₂.tree := congrArg (fun turn : Turn => turn.host.volume.tree) hend
  refine ⟨congrArg Turn.fault hend, congrArg (fun turn : Turn => turn.host.running) hend,
    congrArg (fun turn : Turn => turn.host.steps) hend, ?_⟩
  have hid := Tree.id_of_get? hs.get?_current
  rw [ht]
  exact ⟨hgrows, d₂, _, ⟨hid.symm ▸ hs.get?_current, hid.symm ▸ hd₂⟩, hfind₂,
    Node.text_withContents hfile _⟩

/-! ## The file of a note -/

/-- Where the user is at home. -/
def homeNames : List String := ["users", "user", "home"]

/-- To read a file at home is to find it in the directory at the end of the way home. -/
theorem read?_at_home (t : Tree) (hname : Path.isValidName name = true) :
    t.read? ("/users/user/home/" ++ name) =
      ((t.walk t.rootNode homeNames).bind fun d => t.findChild d name Node.isFile).map
        Node.text := by
  have hspelled : "/users/user/home/" ++ name =
      Path.rootText ++ String.intercalate "/" (homeNames ++ [name]) := by
    simp [← String.toList_inj, Path.rootText, homeNames]
  have hcomponents : Path.components ("/users/user/home/" ++ name) = homeNames ++ [name] := by
    obtain ⟨hempty, _, _, hslash, _⟩ := Path.isValidName_iff.mp hname
    rw [hspelled, Path.components_spelled]
    intro part hpart
    rcases List.mem_append.mp hpart with hpart | hpart
    · have hall : ∀ part ∈ homeNames, part ≠ "" ∧ Path.separator ∉ part.toList := by decide
      exact hall part hpart
    · rw [List.mem_singleton.mp hpart]
      exact ⟨hempty, hslash⟩
  rw [Tree.read?, Tree.findFile, hcomponents, List.getLast?_concat, List.dropLast_concat,
    Tree.origin_rootNode]

/-- In a fresh system the user is at home, may write there, and has no files there. -/
theorem home_fresh : fresh.allows ⟨.user, .write⟩ = true ∧
    fresh.tree.walk fresh.tree.rootNode homeNames = some fresh.tree.currentDirectory ∧
    ∀ m ∈ fresh.tree.childrenOf fresh.tree.currentDirectory, m.isDirectory = true := by
  decide +kernel

/-- Nor are there files in any other directory of that name. -/
theorem no_file_fresh {m p : Node} (hm : fresh.tree.get? m.id = some m) (hfile : m.isFile = true)
    (hparent : m.parent = some p.id) (hp : fresh.tree.get? p.id = some p) : p.name ≠ "home" := by
  have hall : ∀ m ∈ fresh.tree.arena.nodes, m.isFile = true → ∀ id ∈ m.parent,
      ∀ p ∈ fresh.tree.get? id, p.name ≠ "home" := by decide +kernel
  exact hall m (Arena.mem_of_get? hm) hfile p.id hparent p hp

/-- A walk home ends at a directory of that name. -/
theorem name_of_walk_home {t : Tree} {d : Node} (h : t.walk t.rootNode homeNames = some d) :
    d.name = "home" := by
  unfold Tree.walk at h
  split at h
  · -- the last step is a lookup under that name, and what it finds is a directory
    rw [show homeNames = ["users", "user"] ++ ["home"] from rfl, List.foldlM_append] at h
    obtain ⟨p, _, hstep⟩ := Option.bind_eq_some_iff.mp h
    simp only [List.foldlM_cons, List.foldlM_nil, bind_pure] at hstep
    rw [Tree.enter_of_name (by decide) (by decide)] at hstep
    obtain ⟨hfind, hdir⟩ := Option.filter_eq_some_iff.mp hstep
    have hcalled := Node.answersTo_iff.mp (Tree.of_findChild hfind).2.2.2
    exact (Node.called_iff_of_isDirectory hdir).mp hcalled
  · exact absurd h (by simp)

/-- **A file at home is tidy** if all that has been made since the start is: no file was there. -/
theorem tidy_at_home {v : Volume} (hs : v.tree.Sound) (ht : fresh.Tidied v) {d f : Node}
    (hd : v.tree.walk v.tree.rootNode homeNames = some d)
    (hf : v.tree.findChild d name Node.isFile = some f) : Text.Tidy f.text := by
  obtain ⟨hget, hc, hfile, _⟩ := Tree.of_findChild hf
  rcases Nat.lt_or_ge f.id fresh.next with hold | hnew
  · -- the file would have been there at the start, and in a directory of that name
    have hdget := (Tree.directory?_eq_some_iff.mp
      (hs.directory?_walk hs.directory?_rootNode hd)).1
    obtain ⟨f', hf', hparent⟩ := hs.rooted.below d.id f.id ⟨d, hdget, hc⟩
    obtain rfl := Option.some.inj (hf'.symm.trans hget)
    obtain ⟨m, hm, hplace⟩ := ht.old f'.id f' hget hold
    have hid := Tree.id_of_get? hm
    have hmfile : m.isFile = true := by
      rw [Node.isFile, hplace.isDirectory] at hfile
      exact hfile
    have hmparent : m.parent = some d.id := hplace.parent.symm.trans hparent
    obtain ⟨p, hp, hpd⟩ : ∃ p, fresh.tree.get? d.id = some p ∧ p.SamePlace d := by
      refine ht.old d.id d hdget (Nat.not_le.mp fun hge => ?_)
      have hnone := Arena.get?_eq_none_of_bound_le (fresh.bound_le.trans hge)
      exact sound_fresh.rooted.not_mentions hnone ⟨f'.id, m, hm, .inl hmparent⟩
    have hpid := Tree.id_of_get? hp
    refine absurd ?_ (no_file_fresh (hid.symm ▸ hm) hmfile (hpid.symm ▸ hmparent) (hpid.symm ▸ hp))
    rw [← hpd.name]
    exact name_of_walk_home hd
  · exact ht.tidy f.id f hget hnew

/-! ## Lines that are kept -/

/-- **A script changes contents unless it leaves out nothing**, or only what is empty already. -/
theorem intercalate_prepared_eq_iff {lines : List String} (h : ∀ line ∈ lines, '\n' ∉ line.toList) :
    String.intercalate "\n" (Source.prepared lines) = String.intercalate "\n" lines ↔
      (∀ line ∈ lines, Source.Plain line) ∨ lines = [""] := by
  constructor
  · intro hsame
    by_cases hnil : lines = []
    · exact .inl (by simp [hnil])
    have hsplit := Text.splitOn_intercalate_newline hnil h
    rw [← hsame] at hsplit
    by_cases hnone : Source.prepared lines = []
    · -- nothing is left, so there was one empty line
      rw [hnone] at hsplit
      obtain ⟨line, rfl, hempty⟩ := List.map_eq_singleton_iff.mp hsplit.symm
      rw [String.toList_eq_nil_iff.mp hempty]
      exact .inr rfl
    · rw [Text.splitOn_intercalate_newline hnone (Source.not_mem_of_mem_prepared h)] at hsplit
      have hkept := List.map_injective_iff.mpr (fun _ _ => String.toList_inj.mp) hsplit
      exact .inl fun line hline => (Source.mem_prepared (hkept.symm ▸ hline)).1
  · rintro (hplain | rfl)
    · rw [Source.prepared_eq_self hplain]
    · decide

/-- What begins as a command does and ends in a name is a plain line. -/
theorem plain_append (c : Char) (cs : List Char) {word : String} (hword : word.toList = c :: cs)
    (hblank : Text.isBlank c = false) (hmark : c ≠ '#') (hsolid : Interpreter.Solid name) :
    Source.Plain (word ++ name) := by
  have hne : name.toList ≠ [] := fun hnil => hsolid.1 (String.toList_eq_nil_iff.mp hnil)
  have hline : (word ++ name).toList =
      c :: (cs ++ name.toList.dropLast ++ [name.toList.getLast hne]) := by
    rw [String.toList_append, hword, List.append_assoc, List.dropLast_append_getLast hne,
      List.cons_append]
  exact Source.plain_of_ends hline hblank hmark (hsolid.2 _ (List.getLast_mem hne))

theorem prepared_noteLines (hsolid : Interpreter.Solid name) (lines : List String) :
    Source.prepared (noteLines name lines) = noteLines name (Source.prepared lines) := by
  have hfront : ∀ line ∈ ["mf " ++ name, "edit " ++ name], Source.Plain line := by
    have hmake : Source.Plain ("mf " ++ name) :=
      plain_append 'm' ['f', ' '] (by decide) (by decide) (by decide) hsolid
    have hedit : Source.Plain ("edit " ++ name) :=
      plain_append 'e' ['d', 'i', 't', ' '] (by decide) (by decide) (by decide) hsolid
    simp [hmake, hedit]
  have hback : ∀ line ∈ [terminator, "exit"], Source.Plain line := by decide
  rw [noteLines, Source.prepared_append, Source.prepared_append, Source.prepared_eq_self hfront,
    Source.prepared_eq_self hback, noteLines]

/-- The lines hold no line feeds. -/
theorem not_mem_noteLines (hsolid : Interpreter.Solid name) {lines : List String}
    (h : ∀ line ∈ lines, '\n' ∉ line.toList) :
    ∀ line ∈ noteLines name lines, '\n' ∉ line.toList := by
  have hname : '\n' ∉ name.toList := fun hc => absurd (hsolid.2 _ hc) (by decide)
  simp only [noteLines, List.forall_mem_append]
  refine ⟨⟨?_, h⟩, by decide⟩
  simp [hname]

theorem tidyLine_of_mem_noteLines (hsolid : Interpreter.Solid name) {lines : List String}
    (h : ∀ line ∈ lines, '\n' ∉ line.toList) {line : String}
    (hline : line ∈ noteLines name (Source.prepared lines)) : TidyLine line := by
  rw [← prepared_noteLines hsolid] at hline
  exact ⟨Source.not_mem_of_mem_prepared (not_mem_noteLines hsolid h) line hline,
    (Source.mem_prepared hline).1.2⟩

/-! ## Notes -/

section Note

variable (now : Instant) (colorOutput : Bool) (saveFault : Option String)

/-- **The lines are written to a file at home.** -/
theorem boot_run_noteLines (hname : Path.isValidName name = true)
    (hsolid : Interpreter.Solid name) {lines : List String}
    (hlines : ∀ line ∈ lines, line ≠ terminator) :
    let turn := (boot now colorOutput saveFault).run true ((noteLines name lines).map .line)
    turn.fault = none ∧ turn.host.running = false ∧ turn.host.steps = 3 ∧
      turn.host.volume.tree.read? ("/users/user/home/" ++ name) =
        some (String.intercalate "\n" lines) := by
  intro turn
  obtain ⟨hallows, hhome, hdirs⟩ := home_fresh
  have hvolume := volume_boot now colorOutput saveFault
  rw [← hvolume] at hallows hhome hdirs
  have hsound : (boot now colorOutput saveFault).volume.tree.Sound := hvolume ▸ sound_fresh
  obtain ⟨hfault, hrunning, hsteps, hgrows, d, f, hd, hfind, htext⟩ :=
    run_noteLines rfl hsound hallows hdirs hname hsolid hlines
  -- the way home still leads to the directory in which the file has been made
  obtain ⟨d', hwalk, hd'⟩ := hgrows.walk_rootNode hsound hhome
  obtain rfl := Option.some.inj (hd'.2.symm.trans hd.2)
  refine ⟨hfault, hrunning, hsteps, ?_⟩
  rw [read?_at_home _ hname, hwalk, Option.bind_some, hfind, Option.map_some, htext]

/-- **What is read at home after a script is tidy**, whatever was in it. -/
theorem tidy_of_boot_run (hname : Path.isValidName name = true) {scripted : Bool}
    {readings : List Reading} (hlines : ∀ line, .line line ∈ readings → TidyLine line)
    {contents : String}
    (hread : ((boot now colorOutput saveFault).run scripted readings).host.volume.tree.read?
      ("/users/user/home/" ++ name) = some contents) : Text.Tidy contents := by
  have hvolume := volume_boot now colorOutput saveFault
  have hsound : (boot now colorOutput saveFault).volume.tree.Sound := hvolume ▸ sound_fresh
  have hstart : fresh.Tidied (boot now colorOutput saveFault).volume :=
    hvolume ▸ Volume.Tidied.refl fresh
  have htidied := tidied_run hsound hstart scripted hlines
  have hsound' := ((run_moves _ scripted readings hsound).sound hsound).1
  rw [read?_at_home _ hname] at hread
  obtain ⟨f, hf, rfl⟩ := Option.map_eq_some_iff.mp hread
  obtain ⟨d, hd, hfind⟩ := Option.bind_eq_some_iff.mp hf
  exact tidy_at_home hsound' htidied hd hfind

end Note

/--
**A script writes what it is given exactly if every line is plain.**

The text makes a file at home, opens the editor on it, has some lines for it, ends the input and
leaves the shell. When the script has been run, the file holds these lines as they are if there is
something to do in each of them and none ends with a blank, and not otherwise, except that nothing
becomes of a single empty line. For blanks are dropped and idle lines left out before the editor is
opened. What it holds then are the lines that the preparation leaves, provided that this has made
no line the one that ends the input.
-/
theorem note_contents (now : Instant) (colorOutput : Bool) (saveFault : Option String)
    {name : String} {lines : List String} (hname : Path.isValidName name = true)
    (hblank : ∀ c ∈ name.toList, Text.isBlank c = false)
    (hlines : ∀ line ∈ lines, '\n' ∉ line.toList ∧ line ≠ terminator) :
    ∃ script, Source.ofScript (Source.textOf (noteLines name lines)) = .ok script ∧
      let turn := (boot now colorOutput saveFault).run script.scripted script.readings
      let contents := turn.host.volume.tree.read? ("/users/user/home/" ++ name)
      (contents = some (String.intercalate "\n" lines) ↔
        (∀ line ∈ lines, Source.Plain line) ∨ lines = [""]) ∧
      ((∀ line ∈ lines, Text.trimEnd line ≠ terminator) →
        turn.fault = none ∧ turn.host.running = false ∧ turn.host.steps = 3 ∧
          contents = some (String.intercalate "\n" (Source.prepared lines))) := by
  have hsolid : Interpreter.Solid name := ⟨(Path.isValidName_iff.mp hname).1, hblank⟩
  have hfeeds : ∀ line ∈ lines, '\n' ∉ line.toList := fun line hline => (hlines line hline).1
  have hprepared : Source.prepared (Source.typed (Source.textOf (noteLines name lines))) =
      noteLines name (Source.prepared lines) := by
    rw [Source.prepared_typed_textOf (not_mem_noteLines hsolid hfeeds), prepared_noteLines hsolid]
  refine ⟨⟨true, (noteLines name (Source.prepared lines)).map .line⟩, ?_, ?_⟩
  · rw [Source.ofScript_eq, hprepared, if_neg (by simp [noteLines])]
  intro turn contents
  have hwritten : (∀ line ∈ lines, Text.trimEnd line ≠ terminator) →
      turn.fault = none ∧ turn.host.running = false ∧ turn.host.steps = 3 ∧
        contents = some (String.intercalate "\n" (Source.prepared lines)) := by
    intro hopen
    refine boot_run_noteLines now colorOutput saveFault hname hsolid fun line hline => ?_
    obtain ⟨_, raw, hraw, rfl⟩ := Source.mem_prepared hline
    exact hopen raw hraw
  refine ⟨?_, hwritten⟩
  by_cases hopen : ∀ line ∈ lines, Text.trimEnd line ≠ terminator
  · rw [(hwritten hopen).2.2.2, Option.some.injEq]
    exact intercalate_prepared_eq_iff hfeeds
  · -- a line that ends the input only when it is trimmed has a blank at its end
    push Not at hopen
    obtain ⟨line, hline, htrim⟩ := hopen
    have hblank : Text.trimEnd line ≠ line := fun hsame =>
      (hlines line hline).2 (hsame.symm.trans htrim)
    refine iff_of_false (fun hsame => hblank ?_) ?_
    · have htidy : Text.Tidy (String.intercalate "\n" lines) := by
        refine tidy_of_boot_run now colorOutput saveFault hname (fun raw hraw => ?_) hsame
        obtain ⟨_, hmem, hsame⟩ := List.mem_map.mp hraw
        obtain rfl := Reading.line.inj hsame
        exact tidyLine_of_mem_noteLines hsolid hfeeds hmem
      exact (Text.tidy_intercalate_iff hfeeds).mp htidy line hline
    · rintro (hplain | rfl)
      · exact hblank (hplain line hline).2
      · rw [List.mem_singleton.mp hline] at htrim
        exact absurd htrim (by decide)

/-- Three lines, of which one is empty and another one ends with a blank. -/
theorem note_contents_of_groceries :
    let lines := ["milk", "", "bread "]
    Path.isValidName "note.txt" = true ∧ (∀ c ∈ "note.txt".toList, Text.isBlank c = false) ∧
      (∀ line ∈ lines, '\n' ∉ line.toList ∧ line ≠ terminator) ∧
      ∃ script, Source.ofScript (Source.textOf (noteLines "note.txt" lines)) = .ok script ∧
        let turn := (boot ⟨0, 0⟩ true none).run script.scripted script.readings
        let contents := turn.host.volume.tree.read? ("/users/user/home/" ++ "note.txt")
        contents ≠ some (String.intercalate "\n" lines) ∧ contents = some "milk\nbread" := by
  intro lines
  have hname : Path.isValidName "note.txt" = true := by decide +kernel
  have hblank : ∀ c ∈ "note.txt".toList, Text.isBlank c = false :=
    (by decide +kernel : Interpreter.Solid "note.txt").2
  have hlines : ∀ line ∈ lines, '\n' ∉ line.toList ∧ line ≠ terminator := by decide +kernel
  obtain ⟨script, hscript, hexact, hread⟩ := note_contents ⟨0, 0⟩ true none hname hblank hlines
  refine ⟨hname, hblank, hlines, script, hscript, fun hsame => ?_, ?_⟩
  · exact absurd (hexact.mp hsame) (by decide +kernel)
  · rw [(hread (by decide +kernel)).2.2.2]
    decide +kernel

/-- A line that looks like a remark does not come into the file. -/
theorem remark_not_written :
    let lines := ["# milk"]
    let text := "mf note\nedit note\n# milk\n.\nexit\n"
    let start := boot ⟨0, 0⟩ true none
    let script : Source := ⟨true, ["mf note", "edit note", ".", "exit"].map .line⟩
    let home := (start.run script.scripted script.readings).host.volume.tree
    (Path.isValidName "note" = true ∧ (∀ c ∈ "note".toList, Text.isBlank c = false) ∧
      ∀ line ∈ lines, '\n' ∉ line.toList ∧ line.toList.getLast? ≠ some '\r' ∧ line ≠ terminator) ∧
    start.volume.tree.currentPath = "/users/user/home" ∧
    text = Source.textOf (noteLines "note" lines) ∧ Source.ofScript text = .ok script ∧
    home.read? "/users/user/home/note" = some "" ∧
    home.read? "/users/user/home/note" ≠ some (String.intercalate "\n" lines) := by
  intro lines text start script home
  have hname : Path.isValidName "note" = true := by decide +kernel
  have hsolid : Interpreter.Solid "note" := by decide +kernel
  -- nothing of the line is left when the editor is opened
  have hnone : ∀ line ∈ ([] : List String), line ≠ terminator := by simp
  have hread : home.read? "/users/user/home/note" = some "" :=
    (boot_run_noteLines ⟨0, 0⟩ true none hname hsolid hnone).2.2.2
  refine ⟨⟨hname, hsolid.2, by decide +kernel⟩, by decide +kernel, by decide +kernel,
    by decide +kernel, hread, ?_⟩
  rw [hread]
  decide

end Host

end TermShell
