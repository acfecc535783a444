import TermShell.Host
import TermShell.Proofs.Interpreter.Outcomes

/-!
# Sessions

A session is what may happen to a host after it has been started: runs and single steps on any
lines from any source, and between them the clock goes on and the place to save to may come and
go. `Reached` collects the hosts that a session can lead to.

Of what the host writes nothing is said here, only of what becomes of the tree and of how much
is read. The two facts to take from this file are that a step and a run make moves of the user
and no other changes (`step_moves`, `run_moves`), and that reading goes forward only
(`rest_step_suffix`). They rest on two others, that what the host shows changes nothing else
(`shows_present`) and that two outcomes alone leave something to be done (`request_cases`).
-/

namespace TermShell

open Calendar (Instant)

namespace Host

/-- What a session can make of a host. -/
inductive Reached (start : Host) : Host → Prop where
  | start : Reached start start
  | run {h : Host} (scripted : Bool) (readings : List Reading) :
      Reached start h → Reached start (h.run scripted readings).host
  | step {h : Host} (line : String) (scripted : Bool) (readings : List Reading) :
      Reached start h → Reached start (h.step line scripted readings).host
  | elapse {h : Host} (now : Instant) (saveFault : Option String) :
      Reached start h → Reached start { h with now, saveFault }

/-! ## Writing leaves the volume alone -/

section Writing

variable (h : Host)

@[simp] theorem volume_write (s : String) : (h.write s).volume = h.volume := rfl

@[simp] theorem volume_print (s : String) : (h.print s).volume = h.volume := rfl

@[simp] theorem volume_prompt : h.prompt.volume = h.volume := rfl

@[simp] theorem volume_echo (scripted : Bool) (line : String) :
    (h.echo scripted line).volume = h.volume := by
  unfold echo
  split <;> rfl

@[simp] theorem volume_settleSave (snapshot : Snapshot) (fault : Option String) :
    (h.settleSave snapshot fault).volume = h.volume := by
  cases fault <;> rfl

theorem foldl_echo (scripted : Bool) (lines : List String) :
    ∃ output, lines.foldl (fun h line => h.echo scripted line) h = { h with output } := by
  induction lines generalizing h with
  | nil => exact ⟨_, rfl⟩
  | cons line rest ih =>
    obtain ⟨output, hrest⟩ := ih (h.echo scripted line)
    refine ⟨output, ?_⟩
    rw [List.foldl_cons, hrest]
    unfold echo
    split <;> rfl

end Writing

/-! ## Outcomes -/

/-- Something has been shown, a colour may have been taken and the shell may have been left. -/
def Shows (h h' : Host) : Prop :=
  ∃ output color running, h' = { h with output, color, running }

section Outcomes

variable {h h' : Host}

theorem shows_showList (h : Host) (path : Option String) : Shows h (h.showList path).1 := by
  unfold showList
  split
  · dsimp only
    split <;> exact ⟨_, _, _, rfl⟩
  · exact ⟨_, _, _, rfl⟩
  · exact ⟨_, _, _, rfl⟩
  · exact ⟨_, _, _, rfl⟩

theorem shows_showHardware (h : Host) : Shows h h.showHardware.1 := by
  unfold showHardware
  split <;> exact ⟨_, _, _, rfl⟩

theorem shows_showNetwork (h : Host) (arguments : List String) :
    Shows h (h.showNetwork arguments).1 := by
  unfold showNetwork
  split <;> exact ⟨_, _, _, rfl⟩

theorem shows_takeColor (h : Host) (name hex : String) : Shows h (h.takeColor name hex).1 := by
  unfold takeColor
  split <;> exact ⟨_, _, _, rfl⟩

theorem shows_openEditor (h : Host) (file : Nat) : Shows h (h.openEditor file).1 := by
  unfold openEditor
  split <;> exact ⟨_, _, _, rfl⟩

/-- **To present an outcome is to show it**, and nothing else: the volume stays as it is, no line
is counted and nothing is saved. -/
theorem shows_present (h : Host) (o : Outcome) : Shows h (h.present o).1 := by
  cases o with
  | list path => exact shows_showList h path
  | edit file => exact shows_openEditor h file
  | color name hex => exact shows_takeColor h name hex
  | hardware => exact shows_showHardware h
  | network arguments => exact shows_showNetwork h arguments
  | _ => exact ⟨_, _, _, rfl⟩

theorem Shows.volume_eq (hs : Shows h h') : h'.volume = h.volume := by
  obtain ⟨_, _, _, rfl⟩ := hs
  rfl

theorem Shows.steps_eq (hs : Shows h h') : h'.steps = h.steps := by
  obtain ⟨_, _, _, rfl⟩ := hs
  rfl

theorem Shows.saved_eq (hs : Shows h h') : h'.saved = h.saved := by
  obtain ⟨_, _, _, rfl⟩ := hs
  rfl

/-- **Two outcomes leave something to be done**, and no others do. -/
theorem request_cases {o : Outcome} {request : Request} (hp : (h.present o).2 = .ok request) :
    request = .done ∨ (∃ file name, o = .edit file ∧ request = .editor file name) ∨
      o = .save ∧ request = .save h.snapshot := by
  cases o with
  | edit file =>
    simp only [present, openEditor] at hp
    split at hp
    · exact .inr (.inl ⟨file, _, rfl, (Except.ok.inj hp).symm⟩)
    · exact absurd hp (by simp)
  | save => exact .inr (.inr ⟨rfl, (Except.ok.inj hp).symm⟩)
  | list path =>
    simp only [present, showList] at hp
    split at hp <;> simp_all
  | hardware =>
    simp only [present, showHardware] at hp
    split at hp <;> simp_all
  | network arguments =>
    simp only [present, showNetwork] at hp
    split at hp <;> simp_all
  | color name hex =>
    simp only [present, takeColor] at hp
    split at hp <;> simp_all
  | _ => exact .inl (Except.ok.inj hp).symm

/-- Only the outcome that asks for the editor opens it. -/
theorem of_present_editor {o : Outcome} {file : Nat} {name : String}
    (hp : (h.present o).2 = .ok (.editor file name)) : o = .edit file := by
  rcases request_cases hp with hdone | ⟨file', _, rfl, heditor⟩ | ⟨_, hsave⟩
  · exact absurd hdone (by simp)
  · rw [(Request.editor.inj heditor).1]
  · exact absurd hsave (by simp)

/-- Only the outcome that asks to save hands something over to be saved. -/
theorem of_present_save {o : Outcome} {snapshot : Snapshot}
    (hp : (h.present o).2 = .ok (.save snapshot)) : o = .save := by
  rcases request_cases hp with hdone | ⟨_, _, _, heditor⟩ | ⟨rfl, _⟩
  · exact absurd hdone (by simp)
  · exact absurd heditor (by simp)
  · rfl

end Outcomes

/-- After a line has been interpreted the volume is what the interpreter made of it. -/
theorem volume_enter (h : Host) (line : String) :
    (h.enter line).1.volume = (Interpreter.execute h.now h.volume line).1 :=
  (shows_present _ _).volume_eq

/-! ## Editing -/

theorem collect_rest_suffix : ∀ readings : List Reading, (collect readings).rest <:+ readings
  | [] => List.suffix_rfl
  | .failure _ :: rest => List.suffix_cons _ rest
  | .line text :: rest => by
    unfold collect
    split
    · exact List.suffix_cons _ rest
    · exact (collect_rest_suffix rest).trans (List.suffix_cons _ rest)

/-- Lines that do not end the input are taken before what comes behind them. -/
theorem collect_append {lines : List String} (h : ∀ line ∈ lines, line ≠ terminator)
    (readings : List Reading) :
    collect (lines.map .line ++ readings) = { collect readings with
      lines := lines ++ (collect readings).lines, taken := lines ++ (collect readings).taken } := by
  induction lines with
  | nil => rfl
  | cons line lines ih =>
    have hrest := ih fun l hl => h l (List.mem_cons_of_mem _ hl)
    simp only [List.map_cons, List.cons_append, collect, if_neg (h line List.mem_cons_self), hrest]

/-- The editor fails only if reading does. -/
theorem of_collect_failure : ∀ {readings : List Reading} {e : SourceError},
    (collect readings).failure = some e → ∃ reason, .failure reason ∈ readings ∧ e = .read reason
  | .failure reason :: _, e, he => ⟨reason, List.mem_cons_self, (Option.some.inj he).symm⟩
  | .line text :: rest, e, he => by
    unfold collect at he
    split at he
    · exact absurd he (by simp)
    · obtain ⟨reason, hmem, hread⟩ := of_collect_failure he
      exact ⟨reason, List.mem_cons_of_mem _ hmem, hread⟩

/-- A turn that ends early does so because reading fails. -/
def ReadingFails (readings : List Reading) (fault : Option HostError) : Prop :=
  ∃ reason, .failure reason ∈ readings ∧ fault = some (.source (.read reason))

/-- **All that editing can be**: reading fails, the tree refuses the lines, or the file has them.
In the first two cases something has been written out, and no more. -/
theorem edit_turn_cases (h : Host) (file : Nat) (name : String) (scripted : Bool)
    (readings : List Reading) :
    (∃ e output, (collect readings).failure = some e ∧ h.edit file name scripted readings =
      ⟨{ h with output }, (collect readings).rest, some (.source e)⟩) ∨
    (∃ e output, (collect readings).failure = none ∧
      h.volume.write file (String.intercalate "\n" (collect readings).lines) = .error e ∧
      h.edit file name scripted readings =
        ⟨{ h with output }, (collect readings).rest, some (.volume e)⟩) ∨
    ∃ v output, (collect readings).failure = none ∧
      h.volume.write file (String.intercalate "\n" (collect readings).lines) = .ok v ∧
      h.edit file name scripted readings =
        ⟨{ h with volume := v, output }, (collect readings).rest, none⟩ := by
  obtain ⟨_, hinvite⟩ : ∃ output, h.invite scripted name = { h with output } := by
    unfold invite
    split <;> exact ⟨_, rfl⟩
  obtain ⟨_, hshown⟩ := foldl_echo (h.invite scripted name) scripted (collect readings).taken
  rw [hinvite] at hshown
  unfold edit takeEntry
  dsimp only
  rw [hinvite, hshown]
  cases hfailure : (collect readings).failure with
  | some e => exact .inl ⟨e, _, rfl, rfl⟩
  | none =>
    unfold storeLines
    dsimp only
    cases hwrite : h.volume.write file (String.intercalate "\n" (collect readings).lines) with
    | error e => exact .inr (.inl ⟨e, _, rfl, rfl, rfl⟩)
    | ok v => exact .inr (.inr ⟨v, _, rfl, rfl, rfl⟩)

theorem rest_edit (h : Host) (file : Nat) (name : String) (scripted : Bool)
    (readings : List Reading) :
    (h.edit file name scripted readings).rest = (collect readings).rest := by
  rcases h.edit_turn_cases file name scripted readings with
    ⟨_, _, _, he⟩ | ⟨_, _, _, _, he⟩ | ⟨_, _, _, _, he⟩
  · rw [he]
  · rw [he]
  · rw [he]

/-- Editing changes the volume and writes something. -/
theorem edit_host (h : Host) (file : Nat) (name : String) (scripted : Bool)
    (readings : List Reading) :
    ∃ volume output, (h.edit file name scripted readings).host = { h with volume, output } := by
  rcases h.edit_turn_cases file name scripted readings with
    ⟨_, _, _, he⟩ | ⟨_, _, _, _, he⟩ | ⟨_, _, _, _, he⟩
  · exact ⟨_, _, by rw [he]⟩
  · exact ⟨_, _, by rw [he]⟩
  · exact ⟨_, _, by rw [he]⟩

/-- **Editing a file of the tree writes to it**, unless reading fails; then nothing is written. -/
theorem edit_cases (h : Host) {n : Node} (hn : h.volume.tree.get? n.id = some n)
    (hf : n.isFile = true) (name : String) (scripted : Bool) (readings : List Reading) :
    (ReadingFails readings (h.edit n.id name scripted readings).fault ∧
      (h.edit n.id name scripted readings).host.volume = h.volume) ∨
    ((h.edit n.id name scripted readings).fault = none ∧
      h.volume.tree.Altered n
        (n.withContents (String.intercalate "\n" (collect readings).lines))
        (h.edit n.id name scripted readings).host.volume.tree) := by
  obtain ⟨v', hwrite, halt⟩ := Volume.write_of_get? hn hf
    (String.intercalate "\n" (collect readings).lines)
  rcases h.edit_turn_cases n.id name scripted readings with
    ⟨_, _, hfailure, he⟩ | ⟨_, _, _, hrefused, _⟩ | ⟨v, _, _, hwritten, he⟩
  · obtain ⟨reason, hmem, rfl⟩ := of_collect_failure hfailure
    rw [he]
    exact .inl ⟨⟨reason, hmem, rfl⟩, rfl⟩
  · exact absurd (hwrite.symm.trans hrefused) (by simp)
  · rw [he]
    exact .inr ⟨rfl, Except.ok.inj (hwrite.symm.trans hwritten) ▸ halt⟩

/-! ## Steps -/

/-- **All that a step can be**: the line fails, is done with, leaves something to be saved or opens
the editor. -/
theorem step_cases (h : Host) (line : String) (scripted : Bool) (readings : List Reading) :
    (∃ e, (h.enter line).2 = .error e ∧
      h.step line scripted readings = ⟨(h.enter line).1, readings, some e⟩) ∨
    ((h.enter line).2 = .ok .done ∧
      h.step line scripted readings = ⟨(h.enter line).1, readings, none⟩) ∨
    (∃ snapshot, (h.enter line).2 = .ok (.save snapshot) ∧
      h.step line scripted readings =
        ⟨(h.enter line).1.settleSave snapshot (h.enter line).1.saveFault, readings, none⟩) ∨
    ∃ file name, (h.enter line).2 = .ok (.editor file name) ∧
      h.step line scripted readings = (h.enter line).1.edit file name scripted readings := by
  unfold step
  rcases h.enter line with ⟨h', e | request⟩
  · exact .inl ⟨e, rfl, rfl⟩
  · cases request with
    | done => exact .inr (.inl ⟨rfl, rfl⟩)
    | save snapshot => exact .inr (.inr (.inl ⟨snapshot, rfl, rfl⟩))
    | editor file name => exact .inr (.inr (.inr ⟨file, name, rfl, rfl⟩))

/-- A line that comes to a message is done with when the message is shown. -/
theorem step_of_message {h : Host} {v : Volume} {line text : String}
    (he : Interpreter.execute h.now h.volume line = (v, .message text)) (scripted : Bool)
    (readings : List Reading) :
    h.step line scripted readings =
      ⟨print { h with volume := v, steps := h.steps + 1 } text, readings, none⟩ := by
  unfold step enter
  rw [he]
  rfl

/-- A line that leaves the shell is done with. -/
theorem step_of_exit {h : Host} {v : Volume} {line : String}
    (he : Interpreter.execute h.now h.volume line = (v, .exit)) (scripted : Bool)
    (readings : List Reading) :
    h.step line scripted readings =
      ⟨{ h with volume := v, steps := h.steps + 1, running := false }, readings, none⟩ := by
  unfold step enter
  rw [he]
  rfl

/-- A line that comes to the editor leaves the readings to it. -/
theorem step_of_edit {h : Host} {line : String} {n : Node}
    (he : Interpreter.execute h.now h.volume line = (h.volume, .edit n.id))
    (hn : h.volume.tree.get? n.id = some n) (scripted : Bool) (readings : List Reading) :
    h.step line scripted readings =
      edit { h with steps := h.steps + 1 } n.id n.fullName scripted readings := by
  unfold step enter
  rw [he]
  simp only [present, openEditor, hn]

/-- Once the editor is open, the step is its own. -/
theorem step_of_enter_editor {h : Host} {line name : String} {file : Nat}
    (heditor : (h.enter line).2 = .ok (.editor file name)) (scripted : Bool)
    (readings : List Reading) :
    h.step line scripted readings = (h.enter line).1.edit file name scripted readings := by
  rcases h.step_cases line scripted readings with
    ⟨_, he, _⟩ | ⟨he, _⟩ | ⟨_, he, _⟩ | ⟨file', name', he, hstep⟩
  · exact absurd (heditor.symm.trans he) (by simp)
  · exact absurd (heditor.symm.trans he) (by simp)
  · exact absurd (heditor.symm.trans he) (by simp)
  · obtain ⟨rfl, rfl⟩ := Request.editor.inj (Except.ok.inj (heditor.symm.trans he))
    exact hstep

theorem rest_step_suffix (h : Host) (line : String) (scripted : Bool) (readings : List Reading) :
    (h.step line scripted readings).rest <:+ readings := by
  rcases h.step_cases line scripted readings with
    ⟨_, _, hstep⟩ | ⟨_, hstep⟩ | ⟨_, _, hstep⟩ | ⟨file, name, _, hstep⟩
  · simp [hstep]
  · simp [hstep]
  · simp [hstep]
  · rw [hstep, rest_edit]
    exact collect_rest_suffix readings

/-- The editor is opened only on a file that the user may write. -/
theorem of_enter_editor {h : Host} (hs : h.volume.tree.Sound) {line name : String} {file : Nat}
    (he : (h.enter line).2 = .ok (.editor file name)) :
    ∃ n, n.id = file ∧ (h.enter line).1.volume.tree.get? n.id = some n ∧ n.isFile = true ∧
      n.permissions.userWrites = true := by
  have hfeasible := Interpreter.feasible_execute h.now hs line
  rw [of_present_editor he, ← volume_enter] at hfeasible
  obtain ⟨n, hn, hf, hwrites⟩ := hfeasible
  obtain rfl := Tree.id_of_get? hn
  exact ⟨n, rfl, hn, hf, hwrites⟩

/-- Unless it opens the editor, a step leaves the volume as the interpreter has made it. -/
theorem volume_step_cases {h : Host} (hs : h.volume.tree.Sound) (line : String) (scripted : Bool)
    (readings : List Reading) :
    (h.step line scripted readings).host.volume = (h.enter line).1.volume ∨
    ∃ n name, (h.enter line).1.volume.tree.get? n.id = some n ∧ n.isFile = true ∧
      n.permissions.userWrites = true ∧
      h.step line scripted readings = (h.enter line).1.edit n.id name scripted readings := by
  rcases h.step_cases line scripted readings with
    ⟨_, _, hstep⟩ | ⟨_, hstep⟩ | ⟨_, _, hstep⟩ | ⟨file, name, heditor, hstep⟩
  · exact .inl (by rw [hstep])
  · exact .inl (by rw [hstep])
  · exact .inl (by rw [hstep, volume_settleSave])
  · obtain ⟨n, rfl, hn, hf, hwrites⟩ := of_enter_editor hs heditor
    exact .inr ⟨n, name, hn, hf, hwrites, hstep⟩

/-- **A step makes moves of the user.** -/
theorem step_moves {h : Host} (hs : h.volume.tree.Sound) (line : String) (scripted : Bool)
    (readings : List Reading) :
    h.volume.tree.Moves (h.step line scripted readings).host.volume.tree := by
  have hmove : h.volume.tree.Move (h.enter line).1.volume.tree := by
    rw [volume_enter]
    exact Interpreter.move_execute h.now hs line
  rcases volume_step_cases hs line scripted readings with hsame | ⟨n, name, hn, hf, hwrites, hstep⟩
  · rw [hsame]
    exact hmove.moves
  · -- the line has made its move before the editor is opened, and writing is another one
    rw [hstep]
    rcases (h.enter line).1.edit_cases hn hf name scripted readings with ⟨_, hsame⟩ | ⟨_, halt⟩
    · rw [hsame]
      exact hmove.moves
    · exact hmove.moves.trans (Tree.Move.write hf hwrites halt).moves

/-! ## Runs -/

/-- **What every step keeps of the volume, a run keeps.** A step is only made on lines that are
there to be read. -/
theorem run_keeps {P : Volume → Prop} {scripted : Bool} {readings : List Reading}
    (hstep : ∀ (h : Host) (text : String) (rest : List Reading), .line text :: rest <:+ readings →
      P h.volume → P (h.step text scripted rest).host.volume)
    {h : Host} (hkept : P h.volume) : P (h.run scripted readings).host.volume := by
  -- the prompt and the echo come before the step, and leave the volume alone
  fun_induction run h scripted readings with
  | case1 h _ => exact hkept
  | case2 h _ reason rest => exact hkept
  | case3 h _ text rest turn e he =>
    exact hstep (h.prompt.echo scripted text) text rest List.suffix_rfl (by simpa using hkept)
  | case4 h _ text rest turn he ih =>
    have hrest : turn.rest <:+ .line text :: rest :=
      (rest_step_suffix _ text scripted rest).trans (List.suffix_cons _ _)
    refine ih (fun g text' rest' hmore => hstep g text' rest' (hmore.trans hrest)) ?_
    exact hstep (h.prompt.echo scripted text) text rest List.suffix_rfl (by simpa using hkept)
  | case5 h readings _ => exact hkept

/-- **A run makes moves of the user.** -/
theorem run_moves (h : Host) (scripted : Bool) (readings : List Reading)
    (hs : h.volume.tree.Sound) :
    h.volume.tree.Moves (h.run scripted readings).host.volume.tree := by
  refine run_keeps (P := fun v => h.volume.tree.Moves v.tree) ?_ (.refl _)
  exact fun g text rest _ hmoves => hmoves.trans (step_moves (hmoves.sound hs).1 text scripted rest)

/-- **A session makes moves of the user.** -/
theorem Reached.moves {start h : Host} (hr : Reached start h) (hs : start.volume.tree.Sound) :
    start.volume.tree.Moves h.volume.tree := by
  induction hr with
  | start => exact .refl _
  | run scripted readings _ ih => exact ih.trans (run_moves _ scripted readings (ih.sound hs).1)
  | step line scripted readings _ ih => exact ih.trans (step_moves (ih.sound hs).1 ..)
  | elapse _ _ _ ih => exact ih

end Host

end TermShell
