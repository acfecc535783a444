import TermShell.Proofs.Host.Failure
import TermShell.Proofs.Host.Muted
import TermShell.Proofs.Interpreter.Lines

/-!
# Sessions in two parts

The lines of a session may come in one script or in two. A run that has come to the end of its
lines stands between two steps, and another run goes on from there. Only the editor must not be
open: it takes the end of the script for the end of its input, and writes to the file what has been
entered so far (`LeavesOpen`). Whether a line goes to the editor or is interpreted depends on the
lines before it, so the two sessions are compared step by step, each with all the lines that it
takes (`step_append`).

A shell that has been left stays so, whatever is tried with it, and the lines that are still there
remain (`Left`). So it does not matter either in which of the parts this happens.
-/

namespace TermShell.Host

variable {h : Host} {line : String} {scripted : Bool} {readings : List Reading}

/-! ## The editor at the end of the lines -/

/-- The line opens the editor. -/
def OpensEditor (h : Host) (line : String) : Prop :=
  ∃ file name, (h.enter line).2 = .ok (.editor file name)

instance (h : Host) (line : String) : Decidable (h.OpensEditor line) :=
  match hentered : (h.enter line).2 with
  | .ok (.editor file name) => .isTrue ⟨file, name, hentered⟩
  | .ok .done => .isFalse fun ⟨_, _, heditor⟩ => absurd (hentered.symm.trans heditor) (by simp)
  | .ok (.save _) => .isFalse fun ⟨_, _, heditor⟩ => absurd (hentered.symm.trans heditor) (by simp)
  | .error _ => .isFalse fun ⟨_, _, heditor⟩ => absurd (hentered.symm.trans heditor) (by simp)

theorem opensEditor_of_muted {h' : Host} (hm : h.muted = h'.muted) :
    h.OpensEditor line ↔ h'.OpensEditor line := by
  rw [OpensEditor, OpensEditor, (alike_enter hm line).2]

/-- The run ends while the editor still waits for the line that ends its input: the run comes to a
line that opens the editor, and behind it there is no such line. -/
def LeavesOpen (scripted : Bool) (h : Host) (readings : List Reading) : Prop :=
  ∃ g text rest, Completes scripted h readings g (.line text :: rest) ∧ g.running = true ∧
    g.OpensEditor text ∧ .line terminator ∉ rest

theorem not_leavesOpen_of_stopped (hstopped : h.running = false) :
    ¬ LeavesOpen scripted h readings := by
  rintro ⟨g, text, rest, hcompletes, hrunning, _, _⟩
  cases hcompletes with
  | refl => exact absurd (hrunning.symm.trans hstopped) (by simp)
  | step hrunning' => exact absurd (hrunning'.symm.trans hstopped) (by simp)

theorem not_leavesOpen_nil : ¬ LeavesOpen scripted h [] := by
  rintro ⟨_, _, _, hcompletes, _⟩
  cases hcompletes

theorem not_leavesOpen_failure {reason : String} {rest : List Reading} :
    ¬ LeavesOpen scripted h (.failure reason :: rest) := by
  rintro ⟨_, _, _, hcompletes, _⟩
  cases hcompletes

/-- The first line opens the editor and nothing ends its input, or the rest of the run leaves the
editor open. -/
theorem leavesOpen_line_iff (hrunning : h.running = true) {text : String} {rest : List Reading} :
    LeavesOpen scripted h (.line text :: rest) ↔
      (h.OpensEditor text ∧ .line terminator ∉ rest) ∨
      let turn := (h.prompt.echo scripted text).step text scripted rest
      turn.fault = none ∧ LeavesOpen scripted turn.host turn.rest := by
  constructor
  · rintro ⟨g, text', rest', hcompletes, hg, hopens, hnone⟩
    cases hcompletes with
    | refl => exact .inl ⟨hopens, hnone⟩
    | step _ hfault hlater => exact .inr ⟨hfault, g, text', rest', hlater, hg, hopens, hnone⟩
  · rintro (⟨hopens, hnone⟩ | ⟨hfault, g, text', rest', hlater, hg, hopens, hnone⟩)
    · exact ⟨h, text, rest, .refl _ _, hrunning, hopens, hnone⟩
    · exact ⟨g, text', rest', .step hrunning hfault hlater, hg, hopens, hnone⟩

/-- It is found out by making the run. -/
def decideLeavesOpen (scripted : Bool) (h : Host) (readings : List Reading) :
    Decidable (LeavesOpen scripted h readings) :=
  if hrunning : h.running = true then
    match readings with
    | [] => .isFalse not_leavesOpen_nil
    | .failure _ :: _ => .isFalse not_leavesOpen_failure
    | .line text :: rest =>
      have := decideLeavesOpen scripted ((h.prompt.echo scripted text).step text scripted rest).host
        ((h.prompt.echo scripted text).step text scripted rest).rest
      decidable_of_iff _ (leavesOpen_line_iff hrunning).symm
  else .isFalse (not_leavesOpen_of_stopped (eq_false_of_ne_true hrunning))
termination_by readings.length
decreasing_by exact Nat.lt_succ_of_le (length_rest_step_le _ _ _ _)

instance : Decidable (LeavesOpen scripted h readings) := decideLeavesOpen scripted h readings

/-! ## Further lines -/

/-- The turn with more to be read behind what remains. -/
def Turn.before (turn : Turn) (more : List Reading) : Turn :=
  { turn with rest := turn.rest ++ more }

/-- What ends the input of the editor ends it wherever the source goes on. -/
theorem collect_append_of_mem (hends : .line terminator ∈ readings) (more : List Reading) :
    collect (readings ++ more) =
      { collect readings with rest := (collect readings).rest ++ more } := by
  induction readings with
  | nil => exact absurd hends List.not_mem_nil
  | cons reading rest ih =>
    cases reading with
    | failure reason => rfl
    | line text =>
      rw [List.cons_append, collect, collect]
      by_cases hend : text = terminator
      · rw [if_pos hend, if_pos hend]
      · have hlater : .line terminator ∈ rest := by simpa [Ne.symm hend] using hends
        rw [if_neg hend, if_neg hend, ih hlater]

theorem edit_append (hends : .line terminator ∈ readings) (file : Nat) (name : String)
    (more : List Reading) :
    h.edit file name scripted (readings ++ more) =
      (h.edit file name scripted readings).before more := by
  unfold edit takeEntry
  rw [collect_append_of_mem hends]
  dsimp only
  cases (collect readings).failure <;> rfl

/-- **A step does the same with more to be read**, unless it would have taken more. -/
theorem step_append (hends : h.OpensEditor line → .line terminator ∈ readings)
    (more : List Reading) :
    h.step line scripted (readings ++ more) = (h.step line scripted readings).before more := by
  unfold step
  rcases hentered : h.enter line with ⟨h', e | request⟩
  · rfl
  · cases request with
    | done => rfl
    | save snapshot => rfl
    | editor file name => exact edit_append (hends ⟨file, name, by rw [hentered]⟩) file name more

/-! ## Shells that have been left -/

theorem run_of_stopped (hstopped : h.running = false) (scripted : Bool) (readings : List Reading) :
    h.run scripted readings = ⟨h, readings, none⟩ := by
  rw [run.eq_def, if_neg (by simp [hstopped])]

/-- Whatever session follows, a run reads no line, writes nothing and changes nothing. -/
def Left (h : Host) : Prop :=
  ∀ g, Reached h g → ∀ scripted readings, g.run scripted readings = ⟨g, readings, none⟩

/-- No outcome takes the shell up again. -/
theorem stopped_present (hstopped : h.running = false) (o : Outcome) :
    (h.present o).1.running = false := by
  cases o with
  | list path =>
    show (h.showList path).1.running = false
    unfold showList
    split
    · dsimp only
      split <;> exact hstopped
    all_goals exact hstopped
  | edit file =>
    show (h.openEditor file).1.running = false
    unfold openEditor
    split <;> exact hstopped
  | color name hex =>
    show (h.takeColor name hex).1.running = false
    unfold takeColor
    split <;> exact hstopped
  | hardware =>
    show h.showHardware.1.running = false
    unfold showHardware
    split <;> exact hstopped
  | network arguments =>
    show (h.showNetwork arguments).1.running = false
    unfold showNetwork
    split <;> exact hstopped
  | exit => rfl
  | _ => exact hstopped

theorem stopped_step (hstopped : h.running = false) (line : String) (scripted : Bool)
    (readings : List Reading) : (h.step line scripted readings).host.running = false := by
  have hentered : (h.enter line).1.running = false := by
    refine stopped_present ?_ _
    exact hstopped
  rcases h.step_cases line scripted readings with
    ⟨_, _, hstep⟩ | ⟨_, hstep⟩ | ⟨snapshot, _, hstep⟩ | ⟨file, name, _, hstep⟩
  · rw [hstep]
    exact hentered
  · rw [hstep]
    exact hentered
  · rw [hstep]
    cases (h.enter line).1.saveFault <;> exact hentered
  · obtain ⟨_, _, hhost⟩ := (h.enter line).1.edit_host file name scripted readings
    rw [hstep, hhost]
    exact hentered

/-- **A shell that does not run has been left** for good. -/
theorem left_of_stopped (hstopped : h.running = false) : h.Left := by
  intro g hreached
  suffices hstays : g.running = false from run_of_stopped hstays
  induction hreached with
  | start => exact hstopped
  | run scripted readings _ ih => rw [run_of_stopped ih]; exact ih
  | step line scripted readings _ ih => exact stopped_step ih line scripted readings
  | elapse _ _ _ ih => exact ih

theorem left_of_exit (hexit : (Interpreter.execute h.now h.volume line).2 = .exit)
    (scripted : Bool) (readings : List Reading) : (h.step line scripted readings).host.Left := by
  rw [step_of_exit (Prod.ext rfl hexit)]
  exact left_of_stopped rfl

/-- A run goes on from where the steps that it has completed have come to. -/
theorem Completes.run_eq {g : Host} {remaining : List Reading}
    (hcompletes : Completes scripted h readings g remaining) :
    h.run scripted readings = g.run scripted remaining := by
  induction hcompletes with
  | refl => rfl
  | step hrunning hfault _ ih =>
    rw [run, if_pos hrunning]
    simp only [hfault]
    exact ih

/-- A run in which the shell is left reads no further line. -/
theorem run_of_completes_exit {g : Host} {text : String} {rest : List Reading}
    (hcompletes : Completes scripted h readings g (.line text :: rest)) (hg : g.running = true)
    (hexit : (Interpreter.execute g.now g.volume text).2 = .exit) :
    ∃ g', h.run scripted readings = ⟨g', rest, none⟩ ∧ g'.Left := by
  have hshown : (Interpreter.execute (g.prompt.echo scripted text).now
      (g.prompt.echo scripted text).volume text).2 = .exit := by
    have hnow : (g.prompt.echo scripted text).now = g.now := by
      unfold echo
      split <;> rfl
    rw [hnow, volume_echo, volume_prompt, hexit]
  have hstep := step_of_exit (Prod.ext rfl hshown) scripted rest
  refine ⟨_, ?_, left_of_exit hshown scripted rest⟩
  rw [hcompletes.run_eq, run, if_pos hg, hstep]
  exact run_of_stopped rfl scripted rest

/-! ## Runs -/

/-- **A run on more lines is a run and then another one**, up to what is written, if the first one
does not fail and leaves no editor open. -/
theorem run_append (hfault : (h.run scripted readings).fault = none)
    (hclosed : ¬ LeavesOpen scripted h readings) (more : List Reading) :
    let first := h.run scripted readings
    let second := first.host.run scripted more
    (h.run scripted (readings ++ more)).muted =
      (Turn.mk second.host (first.rest ++ second.rest) second.fault).muted := by
  fun_induction run h scripted readings with
  | case1 h hrunning =>
    -- the first run writes a prompt that waits for nothing, and that is all
    exact muted_run (by simp) scripted scripted more
  | case2 h hrunning reason rest => exact absurd hfault (by simp)
  | case3 h hrunning text rest turn e he => exact absurd (he.symm.trans hfault) (by simp)
  | case4 h hrunning text rest turn he ih =>
    rw [leavesOpen_line_iff hrunning] at hclosed
    obtain ⟨hends, hlater⟩ := not_or.mp hclosed
    have hopens : (h.prompt.echo scripted text).OpensEditor text → .line terminator ∈ rest := by
      have hshown : (h.prompt.echo scripted text).muted = h.muted := by simp
      intro hopens
      rw [opensEditor_of_muted hshown] at hopens
      exact not_not.mp fun hnone => hends ⟨hopens, hnone⟩
    have hstep : (h.prompt.echo scripted text).step text scripted (rest ++ more) =
        turn.before more := step_append hopens more
    rw [List.cons_append, run, if_pos hrunning]
    simp only [hstep, Turn.before, he]
    exact ih hfault fun hopen => hlater ⟨he, hopen⟩
  | case5 h readings hstopped =>
    simp only [run_of_stopped (eq_false_of_ne_true hstopped)]

/--
**A session can be cut in two.**

From any host, whatever its tree is like: two scripts with a line feed between them are one script,
whose lines are those of both. If the run on the first script does not fail and does not end while
an editor waits for its terminator, then to run the one script comes to the same as to run the two:
the same tree with the same current directory, the same colour, lines counted and last snapshot,
and the shell has been left or it has not. They differ in what has been written only. And once the
shell has been left, by a line of a run or by a step, no run does anything any more.
-/
theorem run_in_two (h : Host) :
    (∀ a b A B, Source.ofScript a = .ok A → Source.ofScript b = .ok B →
      let joined : Source := ⟨true, A.readings ++ B.readings⟩
      let first := h.run A.scripted A.readings
      let second := first.host.run B.scripted B.readings
      let whole := h.run joined.scripted joined.readings
      Source.ofScript (a ++ "\n" ++ b) = .ok joined ∧
        (first.fault = none → ¬ LeavesOpen A.scripted h A.readings →
          whole.host.muted = second.host.muted ∧ whole.fault = second.fault ∧
            whole.rest = first.rest ++ second.rest)) ∧
    (∀ scripted readings g text rest, Completes scripted h readings g (.line text :: rest) →
      g.running = true → (Interpreter.execute g.now g.volume text).2 = .exit →
      ∃ g', h.run scripted readings = ⟨g', rest, none⟩ ∧ g'.Left) ∧
    ∀ line scripted readings, (Interpreter.execute h.now h.volume line).2 = .exit →
      (h.step line scripted readings).host.Left := by
  refine ⟨?_, fun _ _ _ _ _ => run_of_completes_exit, fun _ scripted readings hexit =>
    left_of_exit hexit scripted readings⟩
  intro a b A B hA hB joined first second whole
  obtain ⟨_, rfl⟩ := Source.ofScript_eq_ok_iff.mp hA
  obtain ⟨_, rfl⟩ := Source.ofScript_eq_ok_iff.mp hB
  refine ⟨Source.ofScript_append hA hB, fun hfault hclosed => ?_⟩
  have hturn := run_append hfault hclosed ((Source.scriptLines b).map .line)
  have hfaults : whole.fault = _ := fault_of_muted hturn
  have hrests : whole.rest = _ := rest_of_muted hturn
  exact ⟨congrArg Turn.host hturn, hfaults, hrests⟩

/-- The shell is left in the second part, where there is a line more. What would leave it in the
first part goes into a file, and there is a remark between the parts. -/
theorem run_in_two_of_note :
    let a := "mf note\nedit note\nexit\n.\nsave\n# to be continued"
    let b := "\ncolor blue\nexit\ndf note"
    let A : Source := ⟨true, ["mf note", "edit note", "exit", ".", "save"].map .line⟩
    let B : Source := ⟨true, ["color blue", "exit", "df note"].map .line⟩
    let start := boot ⟨0, 0⟩ true none
    let first := start.run A.scripted A.readings
    let second := first.host.run B.scripted B.readings
    let whole := start.run true (A.readings ++ B.readings)
    Source.ofScript a = .ok A ∧ Source.ofScript b = .ok B ∧
      Source.ofScript (a ++ "\n" ++ b) = .ok ⟨true, A.readings ++ B.readings⟩ ∧
      first.fault = none ∧ ¬ LeavesOpen A.scripted start A.readings ∧
      whole.host.muted = second.host.muted ∧ whole.rest = first.rest ++ second.rest ∧
      (∃ g', second = ⟨g', [.line "df note"], none⟩ ∧ g'.Left) ∧
      (first.host.step "exit" true B.readings).host.Left := by
  intro a b A B start first second whole
  have hA : Source.ofScript a = .ok A := by decide +kernel
  have hB : Source.ofScript b = .ok B := by decide +kernel
  obtain ⟨hfault, hclosed⟩ : first.fault = none ∧ ¬ LeavesOpen A.scripted start A.readings := by
    decide +kernel
  have hexit : ∀ g : Host, (Interpreter.execute g.now g.volume "exit").2 = .exit := by
    intro g
    rw [Interpreter.answers_exit]
  obtain ⟨hjoined, htwo⟩ := (run_in_two start).1 a b A B hA hB
  obtain ⟨hhost, _, hrest⟩ := htwo hfault hclosed
  let blue := (first.host.prompt.echo true "color blue").step "color blue" true
    [.line "exit", .line "df note"]
  obtain ⟨hstarted, hdone, hmore, hrunning⟩ : first.host.running = true ∧ blue.fault = none ∧
      blue.rest = [.line "exit", .line "df note"] ∧ blue.host.running = true := by decide +kernel
  have hcompletes : Completes true first.host B.readings blue.host blue.rest :=
    .step hstarted hdone (.refl _ _)
  rw [hmore] at hcompletes
  have hleft := (run_in_two first.host).2.1 true B.readings blue.host "exit" [.line "df note"]
    hcompletes hrunning (hexit blue.host)
  exact ⟨hA, hB, hjoined, hfault, hclosed, hhost, hrest, hleft,
    (run_in_two first.host).2.2 "exit" true B.readings (hexit first.host)⟩

end TermShell.Host
