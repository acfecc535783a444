import TermShell.Host
import TermShell.Proofs.Source

/-!
# Nothing that is written is read back

The host writes prompts, echoes and messages, and what it does never depends on any of it. So two
hosts that differ only in their output go on to differ only in their output, whatever they read.
The same holds if one of them reads from a script and the other one from a person: the two kinds
of source differ in what is echoed, and in whether the editor invites to enter lines.

`muted` hosts have written nothing. Each operation is shown to do the same on a host and on the
muted one, up to the output; steps and runs follow. Together with what is known about the lines of
a script, it does not matter how a text comes in (`run_script_eq_run_typed`).
-/

namespace TermShell.Host

open Calendar (Instant)

/-- The host as if it had written nothing. -/
def muted (h : Host) : Host := { h with output := "" }

/-- A turn without what the host has written. -/
def Turn.muted (turn : Turn) : Turn := { turn with host := turn.host.muted }

section Writing

variable (h : Host)

@[simp] theorem muted_muted : h.muted.muted = h.muted := rfl

@[simp] theorem muted_write (s : String) : (h.write s).muted = h.muted := rfl

@[simp] theorem muted_print (s : String) : (h.print s).muted = h.muted := rfl

@[simp] theorem muted_prompt : h.prompt.muted = h.muted := rfl

@[simp] theorem muted_echo (scripted : Bool) (line : String) :
    (h.echo scripted line).muted = h.muted := by
  unfold echo
  split <;> rfl

@[simp] theorem muted_invite (scripted : Bool) (name : String) :
    (h.invite scripted name).muted = h.muted := by
  unfold invite
  split <;> rfl

theorem muted_foldl_echo (scripted : Bool) (lines : List String) :
    (lines.foldl (fun h line => h.echo scripted line) h).muted = h.muted := by
  induction lines generalizing h with
  | nil => rfl
  | cons line rest ih => exact (ih _).trans (muted_echo h scripted line)

end Writing

/-! ## Outcomes -/

/-- The same has happened, up to what was written. -/
def Alike (r r' : Host × Pending) : Prop := r.1.muted = r'.1.muted ∧ r.2 = r'.2

theorem alike_showList (h : Host) (path : Option String) :
    Alike (h.showList path) (h.muted.showList path) := by
  unfold showList
  have hvolume : h.muted.volume = h.volume := rfl
  rw [hvolume]
  cases h.volume.list path with
  | ok listing =>
    dsimp only
    split <;> exact ⟨rfl, rfl⟩
  | error e => cases e <;> exact ⟨rfl, rfl⟩

theorem alike_showHardware (h : Host) : Alike h.showHardware h.muted.showHardware := by
  unfold showHardware
  have hvolume : h.muted.volume = h.volume := rfl
  rw [hvolume]
  cases Report.hardware h.volume <;> exact ⟨rfl, rfl⟩

theorem alike_showNetwork (h : Host) (arguments : List String) :
    Alike (h.showNetwork arguments) (h.muted.showNetwork arguments) := by
  unfold showNetwork
  have hvolume : h.muted.volume = h.volume := rfl
  rw [hvolume]
  cases Report.network h.volume arguments with
  | ok report => exact ⟨rfl, rfl⟩
  | error e => cases e <;> exact ⟨rfl, rfl⟩

theorem alike_takeColor (h : Host) (name hex : String) :
    Alike (h.takeColor name hex) (h.muted.takeColor name hex) := by
  unfold takeColor
  cases Settings.parseColor hex <;> exact ⟨rfl, rfl⟩

theorem alike_openEditor (h : Host) (file : Nat) :
    Alike (h.openEditor file) (h.muted.openEditor file) := by
  unfold openEditor
  have hvolume : h.muted.volume = h.volume := rfl
  rw [hvolume]
  cases h.volume.tree.get? file <;> exact ⟨rfl, rfl⟩

/-- **An outcome is presented in the same way whatever was written before.** -/
theorem alike_present (h : Host) (o : Outcome) : Alike (h.present o) (h.muted.present o) := by
  cases o with
  | list path => exact alike_showList h path
  | edit file => exact alike_openEditor h file
  | color name hex => exact alike_takeColor h name hex
  | hardware => exact alike_showHardware h
  | network arguments => exact alike_showNetwork h arguments
  | _ => exact ⟨rfl, rfl⟩

/-! ## Steps -/

section Steps

variable {h h' : Host}

theorem volume_of_muted (hm : h.muted = h'.muted) : h.volume = h'.volume := by
  show h.muted.volume = h'.muted.volume
  rw [hm]

theorem running_of_muted (hm : h.muted = h'.muted) : h.running = h'.running := by
  show h.muted.running = h'.muted.running
  rw [hm]

theorem saveFault_of_muted (hm : h.muted = h'.muted) : h.saveFault = h'.saveFault := by
  show h.muted.saveFault = h'.muted.saveFault
  rw [hm]

theorem fault_of_muted {turn turn' : Turn} (hm : turn.muted = turn'.muted) :
    turn.fault = turn'.fault := by
  show turn.muted.fault = turn'.muted.fault
  rw [hm]

theorem rest_of_muted {turn turn' : Turn} (hm : turn.muted = turn'.muted) :
    turn.rest = turn'.rest := by
  show turn.muted.rest = turn'.muted.rest
  rw [hm]

/-- The line is interpreted before anything is written. -/
theorem alike_enter (hm : h.muted = h'.muted) (line : String) :
    Alike (h.enter line) (h'.enter line) := by
  have hquiet : ∀ g : Host, Alike (g.enter line) (g.muted.enter line) :=
    fun g => alike_present _ _
  obtain ⟨hleft, hleft'⟩ := hquiet h
  obtain ⟨hright, hright'⟩ := hquiet h'
  rw [hm] at hleft hleft'
  exact ⟨hleft.trans hright.symm, hleft'.trans hright'.symm⟩

theorem muted_settleSave (hm : h.muted = h'.muted) (snapshot : Snapshot) (fault : Option String) :
    (h.settleSave snapshot fault).muted = (h'.settleSave snapshot fault).muted := by
  cases fault with
  | none => exact congrArg (fun g : Host => { g with saved := some snapshot }) hm
  | some reason => exact hm

theorem muted_storeLines (hm : h.muted = h'.muted) (file : Nat) (name : String)
    (lines : List String) :
    (h.storeLines file name lines).1.muted = (h'.storeLines file name lines).1.muted ∧
      (h.storeLines file name lines).2 = (h'.storeLines file name lines).2 := by
  unfold storeLines
  rw [volume_of_muted hm]
  cases h'.volume.write file (String.intercalate "\n" lines) with
  | ok v => exact ⟨congrArg (fun g : Host => { g with volume := v }) hm, rfl⟩
  | error e => exact ⟨hm, rfl⟩

/-- The editor takes the same lines from a script as from a person. -/
theorem muted_edit (hm : h.muted = h'.muted) (file : Nat) (name : String)
    (scripted scripted' : Bool) (readings : List Reading) :
    (h.edit file name scripted readings).muted = (h'.edit file name scripted' readings).muted := by
  have hshown : ((collect readings).taken.foldl (fun h line => h.echo scripted line)
      (h.invite scripted name)).muted =
      ((collect readings).taken.foldl (fun h line => h.echo scripted' line)
        (h'.invite scripted' name)).muted := by
    simpa [muted_foldl_echo] using hm
  unfold edit takeEntry Turn.muted
  dsimp only
  cases (collect readings).failure with
  | some e => simp only [hshown]
  | none =>
    obtain ⟨hhost, hfault⟩ := muted_storeLines hshown file name (collect readings).lines
    simp only [hhost, hfault]

/-- **A step does the same whatever was written before**, and for a script as for a person. -/
theorem muted_step (hm : h.muted = h'.muted) (line : String) (scripted scripted' : Bool)
    (readings : List Reading) :
    (h.step line scripted readings).muted = (h'.step line scripted' readings).muted := by
  have halike := alike_enter hm line
  unfold step
  generalize h.enter line = r at halike
  generalize h'.enter line = r' at halike
  obtain ⟨g, pending⟩ := r
  obtain ⟨g', pending'⟩ := r'
  obtain ⟨hg, rfl⟩ : g.muted = g'.muted ∧ pending = pending' := halike
  -- what is left to do is the same for both, and each way to do it has been compared
  cases pending with
  | error e => simp only [Turn.muted, hg]
  | ok request =>
    cases request with
    | done => simp only [Turn.muted, hg]
    | editor file name => exact muted_edit hg file name scripted scripted' readings
    | save snapshot =>
      simp only [Turn.muted, saveFault_of_muted hg, muted_settleSave hg]

end Steps

/-! ## Runs -/

/-- **So does a run.** -/
theorem muted_run {h h' : Host} (hm : h.muted = h'.muted) (scripted scripted' : Bool)
    (readings : List Reading) :
    (h.run scripted readings).muted = (h'.run scripted' readings).muted := by
  fun_induction run h scripted readings generalizing h' with
  | case1 h hrunning =>
    rw [run, if_pos (running_of_muted hm ▸ hrunning)]
    simpa [Turn.muted] using hm
  | case2 h hrunning reason rest =>
    rw [run, if_pos (running_of_muted hm ▸ hrunning)]
    simpa [Turn.muted] using hm
  | case3 h hrunning text rest turn e =>
    rename_i he
    have hturn : turn.muted = ((h'.prompt.echo scripted' text).step text scripted' rest).muted :=
      muted_step (by simpa using hm) text scripted scripted' rest
    have hfault := fault_of_muted hturn
    rw [run, if_pos (running_of_muted hm ▸ hrunning)]
    simp only [← hfault, he]
    exact hturn
  | case4 h hrunning text rest turn =>
    rename_i he ih
    have hturn : turn.muted = ((h'.prompt.echo scripted' text).step text scripted' rest).muted :=
      muted_step (by simpa using hm) text scripted scripted' rest
    have hfault := fault_of_muted hturn
    rw [run, if_pos (running_of_muted hm ▸ hrunning)]
    simp only [← hfault, he, ← rest_of_muted hturn]
    -- both go on with the same readings, from hosts that differ in their output only
    exact ih (congrArg Turn.host hturn)
  | case5 h readings hstopped =>
    rw [run.eq_def, if_neg (running_of_muted hm ▸ hstopped)]
    simp only [Turn.muted, hm]

/-- A run takes its first line, and goes on from there. -/
theorem muted_run_line {h : Host} (hrunning : h.running = true) {scripted : Bool} {text : String}
    {rest : List Reading} (hfault : (h.step text scripted rest).fault = none) :
    (h.run scripted (.line text :: rest)).muted =
      ((h.step text scripted rest).host.run scripted (h.step text scripted rest).rest).muted := by
  have hturn : ((h.prompt.echo scripted text).step text scripted rest).muted =
      (h.step text scripted rest).muted := muted_step (by simp) text scripted scripted rest
  rw [run, if_pos hrunning]
  simp only [fault_of_muted hturn, hfault, rest_of_muted hturn]
  exact muted_run (congrArg Turn.host hturn) scripted scripted _

/-! ## Texts -/

/--
**A session is the same whether it is scripted or typed.**

The script of a text has the lines that a reader gives for it, except that blanks at their ends are
gone and lines in which there is nothing to do are left out; a text in which nothing is left is no
script. A text in which there was nothing to leave out does the same as a script and typed in, up
to what the shell writes meanwhile.
-/
theorem run_script_eq_run_typed (text : String) :
    (Source.ofScript text =
      if Source.prepared (Source.typed text) = [] then .error .emptyScript
      else .ok ⟨true, (Source.prepared (Source.typed text)).map .line⟩) ∧
    ∀ script, Source.ofScript text = .ok script →
      (∀ line ∈ Source.typed text, ¬ Source.Idle line ∧ Text.trimEnd line = line) →
      ∀ (now : Instant) (colorOutput : Bool) (saveFault : Option String),
        let start := boot now colorOutput saveFault
        let reader := Source.ofText text
        (start.run script.scripted script.readings).muted =
          (start.run reader.scripted reader.readings).muted := by
  refine ⟨Source.ofScript_eq text, fun script hscript hplain now colorOutput saveFault => ?_⟩
  intro start reader
  have hreadings : script.readings = reader.readings := by
    rw [Source.ofScript_eq, Source.prepared_eq_self hplain] at hscript
    split at hscript
    · exact absurd hscript (by simp)
    · rw [← Except.ok.inj hscript, Source.readings_ofText]
  rw [hreadings]
  exact muted_run rfl script.scripted reader.scripted reader.readings

/-- A text that opens the editor, with some of its lines ended in another way. -/
theorem run_script_eq_run_typed_of_note :
    let text := "mf note\r\nedit note\n  milk\r\r\n.\nchp note 000001\r\nexit"
    let script : Source :=
      ⟨true, ["mf note", "edit note", "  milk", ".", "chp note 000001", "exit"].map .line⟩
    let start := boot ⟨0, 0⟩ true none
    let reader := Source.ofText text
    Source.ofScript text = .ok script ∧
      (∀ line ∈ Source.typed text, ¬ Source.Idle line ∧ Text.trimEnd line = line) ∧
      (start.run script.scripted script.readings).muted =
        (start.run reader.scripted reader.readings).muted := by
  intro text script start reader
  have hscript : Source.ofScript text = .ok script := by decide +kernel
  have hplain : ∀ line ∈ Source.typed text, ¬ Source.Idle line ∧ Text.trimEnd line = line := by
    decide +kernel
  have hall := (run_script_eq_run_typed text).2 script hscript hplain
  exact ⟨hscript, hplain, hall ⟨0, 0⟩ true none⟩

end TermShell.Host
