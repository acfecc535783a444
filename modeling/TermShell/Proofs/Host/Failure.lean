import TermShell.Proofs.Host.Session

/-!
# Steps that fail

A line is interpreted before its outcome is presented, so what it does to the tree has been done
when presenting fails. But an outcome that may fail is never that of a line which has done
something: whatever changes the volume ends with a message or in silence, and these are always
shown (`Interpreter.execute_complete_or_unchanged`). The editor for its part writes nothing as long
as it reads. So a step that fails has been counted, may have written something out, and has done
nothing else.

None of this depends on what the tree is like. A run that fails is some steps that do not and then
one that does, or a line that cannot be read (`Completes`).
-/

namespace TermShell.Host

variable {h : Host} {line : String}

/-! ## Outcomes that cannot be presented -/

theorem present_of_complete {o : Outcome} (ho : o.Complete) : (h.present o).2 = .ok .done := by
  cases ho with
  | message text => rfl
  | silent => rfl

/-- Nothing is shown of an outcome when presenting it fails. -/
theorem present_of_error {h' : Host} {o : Outcome} {e : HostError}
    (hp : h.present o = (h', .error e)) : h' = h := by
  cases o with
  | list path =>
    simp only [present, showList] at hp
    split at hp
    · exact absurd hp (by simp)
    · exact absurd hp (by simp)
    · exact absurd hp (by simp)
    · exact (Prod.mk.inj hp).1.symm
  | hardware =>
    simp only [present, showHardware] at hp
    split at hp
    · exact absurd hp (by simp)
    · exact (Prod.mk.inj hp).1.symm
  | network arguments =>
    simp only [present, showNetwork] at hp
    split at hp
    · exact absurd hp (by simp)
    · exact absurd hp (by simp)
    · exact (Prod.mk.inj hp).1.symm
  | color name hex =>
    simp only [present, takeColor] at hp
    split at hp
    · exact absurd hp (by simp)
    · exact (Prod.mk.inj hp).1.symm
  | edit file =>
    simp only [present, openEditor] at hp
    split at hp
    · exact absurd hp (by simp)
    · exact (Prod.mk.inj hp).1.symm
  | _ => exact absurd hp (by simp [present])

theorem present_of_editor {o : Outcome} {file : Nat} {name : String}
    (hp : (h.present o).2 = .ok (.editor file name)) :
    (h.present o).1 = h ∧ ∃ n, h.volume.tree.get? file = some n ∧ n.fullName = name := by
  obtain rfl := of_present_editor hp
  simp only [present, openEditor] at hp ⊢
  split at hp
  · rename_i n hn
    rw [hn]
    exact ⟨rfl, n, rfl, (Request.editor.inj (Except.ok.inj hp)).2⟩
  · exact absurd hp (by simp)

/-- A line that is not done with when it has been interpreted leaves the volume as it was. -/
theorem enter_of_not_done (hp : (h.enter line).2 ≠ .ok .done) :
    h.enter line = present { h with steps := h.steps + 1 }
      (Interpreter.execute h.now h.volume line).2 := by
  rcases Interpreter.execute_complete_or_unchanged h.volume h.now line with hcomplete | hsame
  · exact absurd (present_of_complete hcomplete) hp
  · unfold enter
    dsimp only
    rw [hsame]

theorem enter_of_error {e : HostError} (hp : (h.enter line).2 = .error e) :
    (h.enter line).1 = { h with steps := h.steps + 1 } := by
  have henter := enter_of_not_done (hp ▸ nofun : (h.enter line).2 ≠ .ok .done)
  rw [henter] at hp ⊢
  exact present_of_error (Prod.ext rfl hp)

theorem enter_of_editor {file : Nat} {name : String}
    (hp : (h.enter line).2 = .ok (.editor file name)) :
    (h.enter line).1 = { h with steps := h.steps + 1 } ∧
      ∃ n, h.volume.tree.get? file = some n ∧ n.fullName = name := by
  have henter := enter_of_not_done (hp ▸ nofun : (h.enter line).2 ≠ .ok .done)
  rw [henter] at hp ⊢
  exact present_of_editor hp

/-! ## Steps -/

/-- **A step that fails is counted and may write something out**; that is all. -/
theorem step_of_fault {scripted : Bool} {readings : List Reading} {e : HostError}
    (hfault : (h.step line scripted readings).fault = some e) :
    ∃ output, (h.step line scripted readings).host = { h with steps := h.steps + 1, output } := by
  rcases h.step_cases line scripted readings with
    ⟨e', he, hstep⟩ | ⟨_, hstep⟩ | ⟨_, _, hstep⟩ | ⟨file, name, heditor, hstep⟩
  · rw [hstep, enter_of_error he]
    exact ⟨_, rfl⟩
  · rw [hstep] at hfault
    exact absurd hfault (by simp)
  · rw [hstep] at hfault
    exact absurd hfault (by simp)
  · rw [hstep, (enter_of_editor heditor).1] at hfault ⊢
    rcases edit_turn_cases { h with steps := h.steps + 1 } file name scripted readings with
      ⟨_, output, _, hedit⟩ | ⟨_, output, _, _, hedit⟩ | ⟨_, _, _, _, hedit⟩
    · exact ⟨output, by rw [hedit]⟩
    · exact ⟨output, by rw [hedit]⟩
    · -- here the lines have been written, and the step has not failed
      rw [hedit] at hfault
      exact absurd hfault (by simp)

/-- When reading fails before the input of the editor has ended, the step fails for that reason. -/
theorem step_of_failure {file : Nat} {name : String} {lines : List String}
    (heditor : (h.enter line).2 = .ok (.editor file name))
    (hlines : ∀ line ∈ lines, line ≠ terminator) (scripted : Bool) (reason : String)
    (rest : List Reading) :
    let turn := h.step line scripted (lines.map .line ++ .failure reason :: rest)
    turn.fault = some (.source (.read reason)) ∧ turn.rest = rest := by
  intro turn
  have hturn : turn = _ := step_of_enter_editor heditor scripted _
  have hcollect := collect_append hlines (.failure reason :: rest)
  rcases (h.enter line).1.edit_turn_cases file name scripted
      (lines.map .line ++ .failure reason :: rest) with
    ⟨e, _, hfailure, hedit⟩ | ⟨_, _, hnone, _⟩ | ⟨_, _, hnone, _⟩
  · rw [hturn, hedit]
    rw [hcollect] at hfailure ⊢
    exact ⟨congrArg (fun e => some (HostError.source e)) (Option.some.inj hfailure).symm, rfl⟩
  · rw [hcollect] at hnone
    exact absurd hnone (by simp [collect])
  · rw [hcollect] at hnone
    exact absurd hnone (by simp [collect])

/-! ## Runs -/

/-- A run on the readings completes some steps and comes to another host, with what then remains of
the readings. -/
inductive Completes (scripted : Bool) : Host → List Reading → Host → List Reading → Prop where
  | refl (h : Host) (readings : List Reading) : Completes scripted h readings h readings
  | step {h g : Host} {text : String} {rest remaining : List Reading} :
      h.running = true → ((h.prompt.echo scripted text).step text scripted rest).fault = none →
      Completes scripted ((h.prompt.echo scripted text).step text scripted rest).host
        ((h.prompt.echo scripted text).step text scripted rest).rest g remaining →
      Completes scripted h (.line text :: rest) g remaining

/-- After these steps there is no other: the next line cannot be read, or its step fails. -/
def Fails (scripted : Bool) (g : Host) (e : HostError) : List Reading → Prop
  | [] => False
  | .failure reason :: _ => e = .source (.read reason)
  | .line text :: rest => ((g.prompt.echo scripted text).step text scripted rest).fault = some e

/-- **A run that fails stays where the last step that is completed has come to.** -/
theorem run_of_fault {scripted : Bool} {readings : List Reading} {e : HostError}
    (hfault : (h.run scripted readings).fault = some e) :
    ∃ g remaining, Completes scripted h readings g remaining ∧ g.running = true ∧
      Fails scripted g e remaining ∧
      ∃ steps output, (h.run scripted readings).host = { g with steps, output } := by
  fun_induction run h scripted readings with
  | case1 h _ => exact absurd hfault (by simp)
  | case2 h hrunning reason rest =>
    exact ⟨h, _, .refl h _, hrunning, (Option.some.inj hfault).symm, h.steps, _, rfl⟩
  | case3 h hrunning text rest turn e' he =>
    refine ⟨h, _, .refl h _, hrunning, hfault, h.steps + 1, ?_⟩
    obtain ⟨output, hhost⟩ := step_of_fault hfault
    refine ⟨output, hhost.trans ?_⟩
    unfold prompt echo
    split <;> rfl
  | case4 h hrunning text rest turn he ih =>
    obtain ⟨g, remaining, hcompletes, hg⟩ := ih hfault
    exact ⟨g, remaining, .step hrunning he hcompletes, hg⟩
  | case5 h readings _ => exact absurd hfault (by simp)

/--
**A step that fails changes nothing.**

Whatever the tree is like and whatever there is to be read: when a step fails, all is as it was
before, except that the line has been counted and something may have been written out. When the
editor is open and reading fails before its input has ended, the step fails for that reason, and the
file is the one that it was. And when a run fails, it has completed some steps, the next one fails
or its line cannot be read, and all is as these steps have left it.
-/
theorem failing_step_changes_nothing (h : Host) (scripted : Bool) (readings : List Reading) :
    (∀ line e, (h.step line scripted readings).fault = some e →
      ∃ output, (h.step line scripted readings).host = { h with steps := h.steps + 1, output }) ∧
    (∀ line file name (lines : List String) reason rest,
      (h.enter line).2 = .ok (.editor file name) → (∀ l ∈ lines, l ≠ terminator) →
      readings = lines.map .line ++ .failure reason :: rest →
      let turn := h.step line scripted readings
      turn.fault = some (.source (.read reason)) ∧ turn.rest = rest ∧
        ∃ n, h.volume.tree.get? file = some n ∧ n.fullName = name ∧
          turn.host.volume.tree.get? file = some n) ∧
    ∀ e, (h.run scripted readings).fault = some e →
      ∃ g remaining, Completes scripted h readings g remaining ∧ g.running = true ∧
        Fails scripted g e remaining ∧
        ∃ steps output, (h.run scripted readings).host = { g with steps, output } := by
  refine ⟨fun _ _ => step_of_fault, ?_, fun _ => run_of_fault⟩
  rintro line file name lines reason rest heditor hlines rfl turn
  obtain ⟨hfault, hrest⟩ := step_of_failure heditor hlines scripted reason rest
  obtain ⟨_, n, hn, hname⟩ := enter_of_editor heditor
  obtain ⟨output, hhost⟩ := step_of_fault hfault
  refine ⟨hfault, hrest, n, hn, hname, ?_⟩
  show (h.step line scripted _).host.volume.tree.get? file = some n
  rw [hhost, hn]

/-- A shell on a tree that has a root and nothing else, where no device can be listed. -/
def stranded : Host := { boot ⟨0, 0⟩ true none with volume := .ofTree (.bare .userReadWrite) }

/-- There a file is made. Then the devices cannot be listed, neither in a step nor in a run, and
what is entered for the file breaks off. -/
theorem failing_step_changes_nothing_when_stranded :
    let start := (stranded.step "mf note" true []).host
    let readings := ["milk"].map .line ++ .failure "cut off" :: []
    let lines := ["mf note", "lhw"].map .line
    (∃ e output, (start.step "lhw" true readings).fault = some e ∧
      (start.step "lhw" true readings).host = { start with steps := 2, output }) ∧
    ((start.enter "edit note").2 = .ok (.editor 1 "note") ∧
      let turn := start.step "edit note" true readings
      turn.fault = some (.source (.read "cut off")) ∧
        ∃ n, start.volume.tree.get? 1 = some n ∧ turn.host.volume.tree.get? 1 = some n) ∧
    ∃ e g remaining, (stranded.run true lines).fault = some e ∧
      Completes true stranded lines g remaining ∧ Fails true g e remaining ∧
      ∃ steps output, (stranded.run true lines).host = { g with steps, output } := by
  intro start readings lines
  refine ⟨?_, ⟨?_, ?_⟩, ?_⟩
  · obtain ⟨e, hfault⟩ : ∃ e, (start.step "lhw" true readings).fault = some e :=
      Option.isSome_iff_exists.mp (by decide +kernel)
    obtain ⟨output, hhost⟩ := (failing_step_changes_nothing start true readings).1 "lhw" e hfault
    have hsteps : start.steps = 1 := by decide +kernel
    rw [hsteps] at hhost
    exact ⟨e, output, hfault, hhost⟩
  · decide +kernel
  · obtain ⟨hfault, _, n, hn, _, hsame⟩ := (failing_step_changes_nothing start true readings).2.1
      "edit note" 1 "note" ["milk"] "cut off" [] (by decide +kernel) (by decide) rfl
    exact ⟨hfault, n, hn, hsame⟩
  · obtain ⟨e, hfault⟩ : ∃ e, (stranded.run true lines).fault = some e :=
      Option.isSome_iff_exists.mp (by decide +kernel)
    obtain ⟨g, remaining, hcompletes, _, hfails, hhost⟩ :=
      (failing_step_changes_nothing stranded true lines).2.2 e hfault
    exact ⟨e, g, remaining, hfault, hcompletes, hfails, hhost⟩

end TermShell.Host
