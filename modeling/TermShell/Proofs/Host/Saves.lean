import TermShell.Proofs.Host.Session
import TermShell.Proofs.Snapshot

/-!
# What has been saved

Only a line that asks for it saves anything, and the answer says whether it did. So what is saved
can be told from the lines that have been interpreted: it is the state of the shell at the last of
them that was answered with success. The lines of a run are collected in its `log`, each as a
`Moment` in which it met the host; `Recorded` keeps the moments of a whole session.
-/

namespace TermShell

open Calendar (Instant)

/-! ## Lines that ask to save -/

namespace Interpreter

/-- The line asks to save. -/
def AsksToSave (line : String) : Prop :=
  (CommandLine.parse line).bind CommandLine.command? = some .save

instance (line : String) : Decidable (AsksToSave line) :=
  inferInstanceAs (Decidable (_ = _))

variable {now : Instant} {v : Volume} {l : CommandLine} {line : String}

/-- What the line says besides does not matter. -/
theorem execute_of_asksToSave (h : AsksToSave line) : execute now v line = (v, .save) := by
  obtain ⟨l, hl, hc⟩ := Option.bind_eq_some_iff.mp h
  rw [Names.execute_eq ⟨hl, hc⟩, run, hc]
  rfl

/-- Of all commands, one alone has this outcome. -/
theorem perform_ne_save {c : Command} (hc : c ≠ .save) : (perform now v c l).2 ≠ .save := by
  unfold perform
  cases c with
  | save => exact absurd rfl hc
  | color => unfold changeColor; grind
  | viewFile => unfold viewFile; grind
  | viewPermissions => unfold viewPermissions missing; grind
  | editFile => unfold editFile; grind
  | changeDirectory => exact (complete_changeDirectory v l).ne_save
  | changePermissions => exact (complete_changePermissions v l).ne_save
  | makeFile => exact (complete_makeFile v l).ne_save
  | makeDirectory => exact (complete_makeDirectory v l).ne_save
  | deleteFile => exact (complete_deleteFile v l).ne_save
  | deleteDirectory => exact (complete_deleteDirectory v l).ne_save
  | _ => exact nofun

theorem execute_ne_save (h : ¬ AsksToSave line) : (execute now v line).2 ≠ .save := by
  unfold execute
  cases hl : CommandLine.parse line with
  | none => simp
  | some l =>
    have hc : l.command? ≠ some .save := by simpa [AsksToSave, hl] using h
    unfold run
    dsimp only
    split
    · simp
    · rename_i c hcommand
      split
      · simp
      · exact perform_ne_save (by simpa [hcommand] using hc)

end Interpreter

namespace Host

open Interpreter (AsksToSave)

variable {h : Host} {line : String}

/-! ## Steps -/

/-- A line that asks to save does nothing else. -/
theorem step_of_asksToSave (hl : AsksToSave line) (scripted : Bool) (readings : List Reading) :
    h.step line scripted readings =
      ⟨settleSave { h with steps := h.steps + 1 } h.snapshot h.saveFault, readings, none⟩ := by
  unfold step enter
  rw [Interpreter.execute_of_asksToSave hl]
  rfl

theorem steps_settleSave (h : Host) (snapshot : Snapshot) (fault : Option String) :
    (h.settleSave snapshot fault).steps = h.steps := by
  cases fault <;> rfl

theorem settleSave_of_ne_none {snapshot : Snapshot} {fault : Option String}
    (hfault : fault ≠ none) :
    h.settleSave snapshot fault = { h with output := (h.settleSave snapshot fault).output } := by
  cases fault with
  | none => exact absurd rfl hfault
  | some reason => rfl

/-- **A step counts its line.** -/
theorem steps_step (h : Host) (line : String) (scripted : Bool) (readings : List Reading) :
    (h.step line scripted readings).host.steps = h.steps + 1 := by
  have hsteps : (h.enter line).1.steps = h.steps + 1 := (shows_present _ _).steps_eq
  rcases h.step_cases line scripted readings with
    ⟨_, _, hstep⟩ | ⟨_, hstep⟩ | ⟨_, _, hstep⟩ | ⟨file, name, _, hstep⟩
  · rw [hstep, ← hsteps]
  · rw [hstep, ← hsteps]
  · rw [hstep, ← hsteps, steps_settleSave]
  · obtain ⟨_, _, hedit⟩ := (h.enter line).1.edit_host file name scripted readings
    rw [hstep, hedit, ← hsteps]

/-- **A step saves the state that it finds**, if its line asks to save and nothing is in the way;
else it leaves what is saved alone. -/
theorem saved_step (h : Host) (line : String) (scripted : Bool) (readings : List Reading) :
    (h.step line scripted readings).host.saved =
      if AsksToSave line ∧ h.saveFault = none then some h.snapshot else h.saved := by
  by_cases hl : AsksToSave line
  · rw [step_of_asksToSave hl]
    cases hfault : h.saveFault with
    | none => simp [hl, settleSave, print, write]
    | some reason => simp [settleSave, print, write]
  · rw [if_neg (fun hboth => hl hboth.1)]
    have hsaved : (h.enter line).1.saved = h.saved := (shows_present _ _).saved_eq
    rcases h.step_cases line scripted readings with
      ⟨_, _, hstep⟩ | ⟨_, hstep⟩ | ⟨_, hsave, _⟩ | ⟨file, name, _, hstep⟩
    · rw [hstep, ← hsaved]
    · rw [hstep, ← hsaved]
    · exact absurd (of_present_save hsave) (Interpreter.execute_ne_save hl)
    · obtain ⟨_, _, hedit⟩ := (h.enter line).1.edit_host file name scripted readings
      rw [hstep, hedit, ← hsaved]

/-! ## Moments -/

/-- A line that has been interpreted, with the host that it met. -/
structure Moment where
  before : Host
  line : String
  scripted : Bool
  /-- What there was to read for the editor. -/
  readings : List Reading

namespace Moment

/-- The host when the line has been dealt with. -/
def after (m : Moment) : Host := (m.before.step m.line m.scripted m.readings).host

/-- The line asked to save, and the answer was that it has been done. -/
def Saves (m : Moment) : Prop :=
  AsksToSave m.line ∧ m.after.output = (m.before.print "Progress saved.").output

instance (m : Moment) : Decidable m.Saves := inferInstanceAs (Decidable (_ ∧ _))

end Moment

theorem output_print_inj {s t : String} (he : (h.print s).output = (h.print t).output) :
    s = t := by
  have hcolored : h.colored s = h.colored t := by
    simpa [print, write, ← String.toList_inj] using he
  unfold colored at hcolored
  split at hcolored
  · simpa [← String.toList_inj] using hcolored
  · exact hcolored

/-- **The answer tells whether the state has been saved.** -/
theorem Moment.saves_iff (m : Moment) :
    m.Saves ↔ AsksToSave m.line ∧ m.before.saveFault = none := by
  refine and_congr_right fun hl => ?_
  rw [Moment.after, step_of_asksToSave hl]
  cases m.before.saveFault with
  | none => exact iff_of_true rfl rfl
  | some reason =>
    refine iff_of_false (fun he => ?_) (by simp)
    -- the answer would have to be the complaint
    have hsame := congrArg String.toList
      (output_print_inj (h := m.before) (s := "Unable to save: I/O error: " ++ reason) he)
    simp at hsame

/-- What is saved after some moments, if anything has been saved in them. -/
def lastSaved (ms : List Moment) : Option Snapshot :=
  (ms.filter Moment.Saves).getLast?.map fun m => m.before.snapshot

theorem lastSaved_append (ms ms' : List Moment) :
    lastSaved (ms ++ ms') = (lastSaved ms').or (lastSaved ms) := by
  simp [lastSaved, List.filter_append, List.getLast?_append, Option.map_or]

theorem Moment.saved_after (m : Moment) : m.after.saved = (lastSaved [m]).or m.before.saved := by
  rw [Moment.after, saved_step]
  by_cases hsaves : m.Saves
  · rw [if_pos (m.saves_iff.mp hsaves)]
    simp [lastSaved, hsaves]
  · rw [if_neg (fun hboth => hsaves (m.saves_iff.mpr hboth))]
    simp [lastSaved, hsaves]

/-! ## Runs -/

/-- The lines that a run interprets, each with the host that it meets. -/
def log (h : Host) (scripted : Bool) (readings : List Reading) : List Moment :=
  if h.running then
    match readings with
    | [] => []
    | .failure _ :: _ => []
    | .line text :: rest =>
      let shown := h.prompt.echo scripted text
      let turn := shown.step text scripted rest
      ⟨shown, text, scripted, rest⟩ ::
        match turn.fault with
        | some _ => []
        | none => turn.host.log scripted turn.rest
  else []
termination_by readings.length
decreasing_by exact Nat.lt_succ_of_le (length_rest_step_le _ _ _ _)

/-- The log misses no line: what it holds accounts for all lines that have been counted, and for
what is saved. -/
structure Accounts (before : Host) (ms : List Moment) (after : Host) : Prop where
  steps : after.steps = before.steps + ms.length
  saved : after.saved = (lastSaved ms).or before.saved

theorem Accounts.trans {h h' h'' : Host} {ms ms' : List Moment} (hfirst : Accounts h ms h')
    (hsecond : Accounts h' ms' h'') : Accounts h (ms ++ ms') h'' where
  steps := by
    rw [hsecond.steps, hfirst.steps, List.length_append, Nat.add_assoc]
  saved := by
    rw [hsecond.saved, hfirst.saved, lastSaved_append, Option.or_assoc]

theorem Moment.accounts (m : Moment) : Accounts m.before [m] m.after :=
  ⟨steps_step .., m.saved_after⟩

theorem accounts_echo (h : Host) (scripted : Bool) (text : String) :
    Accounts h [] (h.prompt.echo scripted text) := by
  unfold echo
  split <;> exact ⟨rfl, rfl⟩

/-- **The log of a run accounts for it.** -/
theorem accounts_run (h : Host) (scripted : Bool) (readings : List Reading) :
    Accounts h (h.log scripted readings) (h.run scripted readings).host := by
  fun_induction run h scripted readings with
  | case1 h hrunning =>
    rw [log, if_pos hrunning]
    exact ⟨rfl, rfl⟩
  | case2 h hrunning reason rest =>
    rw [log, if_pos hrunning]
    exact ⟨rfl, rfl⟩
  | case3 h hrunning text rest turn e he =>
    -- the line that could not be dealt with is the last one of the log
    let m : Moment := ⟨h.prompt.echo scripted text, text, scripted, rest⟩
    have hlog : h.log scripted (.line text :: rest) = [m] := by
      rw [log, if_pos hrunning]
      dsimp only
      rw [show (m.before.step text scripted rest).fault = some e from he]
    rw [hlog]
    exact (accounts_echo h scripted text).trans m.accounts
  | case4 h hrunning text rest turn he ih =>
    let m : Moment := ⟨h.prompt.echo scripted text, text, scripted, rest⟩
    have hlog : h.log scripted (.line text :: rest) = [m] ++ turn.host.log scripted turn.rest := by
      rw [log, if_pos hrunning]
      dsimp only
      rw [show (m.before.step text scripted rest).fault = none from he]
      rfl
    rw [hlog]
    exact ((accounts_echo h scripted text).trans m.accounts).trans ih
  | case5 h readings hstopped =>
    rw [log.eq_def, if_neg hstopped]
    exact ⟨rfl, rfl⟩

/-! ## Sessions -/

/-- What a session can make of a host, with all the lines that have been interpreted in it. -/
inductive Recorded (start : Host) : List Moment → Host → Prop where
  | start : Recorded start [] start
  | run {ms : List Moment} {h : Host} (scripted : Bool) (readings : List Reading) :
      Recorded start ms h →
      Recorded start (ms ++ h.log scripted readings) (h.run scripted readings).host
  | step {ms : List Moment} {h : Host} (line : String) (scripted : Bool)
      (readings : List Reading) :
      Recorded start ms h →
      Recorded start (ms ++ [⟨h, line, scripted, readings⟩]) (h.step line scripted readings).host
  | elapse {ms : List Moment} {h : Host} (now : Instant) (saveFault : Option String) :
      Recorded start ms h → Recorded start ms { h with now, saveFault }

/-- **The record of a session accounts for it.** -/
theorem Recorded.accounts {start h : Host} {ms : List Moment} (hr : Recorded start ms h) :
    Accounts start ms h := by
  induction hr with
  | start => exact ⟨rfl, rfl⟩
  | run scripted readings _ ih => exact ih.trans (accounts_run _ scripted readings)
  | @step ms h line scripted readings _ ih =>
    exact ih.trans (Moment.accounts ⟨h, line, scripted, readings⟩)
  | elapse _ _ _ ih => exact ⟨ih.steps, ih.saved⟩

/-! ## What a snapshot tells -/

/-- The snapshot tells how the host is: the whole tree, the path that the prompt shows, which is
that of the current directory, and the name of the chosen colour. -/
structure Describes (s : Snapshot) (h : Host) : Prop where
  tree : s.tree = h.volume.tree
  path : s.currentDirectory = h.volume.tree.currentPath
  prompt : h.prompt = h.write (s.currentDirectory ++ "> ")
  color : s.color = h.color.map Prod.fst

theorem describes_snapshot (h : Host) : Describes h.snapshot h := ⟨rfl, rfl, rfl, rfl⟩

/-- **What is saved describes the moment of saving.** -/
theorem Recorded.describes {start h : Host} {ms : List Moment} (hr : Recorded start ms h)
    {m : Moment} (hm : (ms.filter Moment.Saves).getLast? = some m) :
    ∃ s, h.saved = some s ∧ Describes s m.before := by
  refine ⟨m.before.snapshot, ?_, describes_snapshot m.before⟩
  rw [hr.accounts.saved, lastSaved, hm]
  rfl

/-- Where no save has been answered with success, nothing new is saved. -/
theorem Recorded.saved_of_none {start h : Host} {ms : List Moment} (hr : Recorded start ms h)
    (hm : (ms.filter Moment.Saves).getLast? = none) : h.saved = start.saved := by
  rw [hr.accounts.saved, lastSaved, hm]
  rfl

/-- **A save that fails changes nothing** but the count of lines and the output. -/
theorem Moment.after_of_not_saves {m : Moment} (hasks : AsksToSave m.line) (hfails : ¬ m.Saves) :
    m.after = { m.before with steps := m.before.steps + 1, output := m.after.output } := by
  have hfault : m.before.saveFault ≠ none := fun hnone => hfails (m.saves_iff.mpr ⟨hasks, hnone⟩)
  rw [Moment.after, step_of_asksToSave hasks]
  exact settleSave_of_ne_none hfault

/--
**A snapshot loses nothing, and it is of the moment of saving.**

Trees whose written forms are the same up to the order of fields are equal, whatever their shape.
What is written of a snapshot has the written tree as a field, and tree, path and colour are read
back from it in whatever order the fields come. At any time in a session that lines are counted in,
the last snapshot describes the host as it met the last line that asked to save and was answered
with success; if there is none, it is what it was at the start. A line that asked to save and was
answered otherwise has changed nothing but the count of lines and the output.
-/
theorem saved_is_last_state {start h : Host} {ms : List Moment} (hr : Recorded start ms h) :
    (∀ t t' : Tree, t.toJson.Same t'.toJson → t = t') ∧
    (∀ (s : Snapshot) (savedAt : Instant),
      (s.toJson savedAt).named "file_system" = [s.tree.toJson] ∧
      ∀ j, (s.toJson savedAt).Same j →
        j.read? "file_system" Tree.ofJson? = some s.tree ∧
        j.read? "current_directory" Json.text? = some s.currentDirectory ∧
        j.readOptional? "color" Json.text? = some s.color) ∧
    h.steps = start.steps + ms.length ∧
    (∀ m, (ms.filter Moment.Saves).getLast? = some m →
      ∃ s, h.saved = some s ∧ Describes s m.before) ∧
    ((ms.filter Moment.Saves).getLast? = none → h.saved = start.saved) ∧
    ∀ m ∈ ms, AsksToSave m.line → ¬ m.Saves →
      m.after = { m.before with steps := m.before.steps + 1, output := m.after.output } :=
  ⟨fun _ _ => Tree.readsBack.inj,
    fun s savedAt => ⟨s.named_fileSystem savedAt, fun _ => Snapshot.read_back⟩,
    hr.accounts.steps, fun _ => hr.describes, hr.saved_of_none,
    fun _ _ => Moment.after_of_not_saves⟩

/-- Someone saves at home, makes a directory, goes there, and finds that the next save fails. The
last snapshot has the colour, the home directory and a tree without the new directory. -/
theorem saved_is_last_state_at_home :
    let start := boot ⟨0, 0⟩ true none
    let lines := ["color teal", "save", "md notes", "cd notes"].map Reading.line
    let later := { (start.run true lines).host with now := ⟨60, 0⟩, saveFault := some "disk full" }
    let last : Moment := ⟨later, "save", true, []⟩
    let ms := start.log true lines ++ [last]
    let notes (t : Tree) := (t.findDirectory t.rootNode "/users/user/home/notes").isSome
    Recorded start ms last.after ∧
      (∃ m s, (ms.filter Moment.Saves).getLast? = some m ∧ m.line = "save" ∧ m.before.steps = 1 ∧
        last.after.saved = some s ∧ Describes s m.before ∧
        s.currentDirectory = "/users/user/home" ∧ s.color = some "teal" ∧ notes s.tree = false ∧
        ∀ j, (s.toJson ⟨5, 0⟩).Same j → j.read? "file_system" Tree.ofJson? = some s.tree) ∧
      notes last.after.volume.tree = true ∧
      last.after = { later with steps := later.steps + 1, output := last.after.output } := by
  intro start lines later last ms notes
  have hr : Recorded start ms last.after :=
    .step "save" true [] (.elapse ⟨60, 0⟩ (some "disk full") (.run true lines .start))
  obtain ⟨_, hwritten, _, hdescribes, _, hfailed⟩ := saved_is_last_state hr
  have hasks : AsksToSave last.line := by decide +kernel
  have hfails : ¬ last.Saves := fun h => Option.some_ne_none _ (last.saves_iff.mp h).2
  have hmem : last ∈ ms := List.mem_append_right _ List.mem_cons_self
  have hlast : ((ms.filter Moment.Saves).getLast?.map fun m => (m.line, m.before.steps)) =
      some ("save", 1) := by decide +kernel
  obtain ⟨m, hm, hmoment⟩ := Option.map_eq_some_iff.mp hlast
  obtain ⟨hline, hsteps⟩ := Prod.mk.inj hmoment
  obtain ⟨s, hs, hdescribed⟩ := hdescribes m hm
  have hsaved : (last.after.saved.map fun s => (s.currentDirectory, s.color, notes s.tree)) =
      some ("/users/user/home", some "teal", false) := by decide +kernel
  rw [hs, Option.map_some, Option.some_inj, Prod.mk.injEq, Prod.mk.injEq] at hsaved
  obtain ⟨hpath, hcolor, hnotes⟩ := hsaved
  refine ⟨hr, ⟨m, s, hm, hline, hsteps, hs, hdescribed, hpath, hcolor, hnotes, fun j hj => ?_⟩, ?_,
    hfailed last hmem hasks hfails⟩
  · exact ((hwritten s ⟨5, 0⟩).2 j hj).1
  · decide +kernel

end Host

end TermShell
