import TermShell.Proofs.Host.SystemArea
import TermShell.Proofs.Report.Network

/-!
# Runs that come to their end

A step may end early for many reasons: a listing or a file that is refused, a colour that is not
one, a report whose directory is gone. In a session none of them comes up. What a line asks for
can be done (`Feasible`), and what the host needs besides lies in the system area, which no
session alters. What remains is that reading fails, and a script cannot fail to be read.

A run that does not end early goes on until the shell is left or the source is used up.
-/

namespace TermShell

open Calendar (Instant)

/-- A listing is refused for no other reasons than those the host knows what to say to. -/
theorem Volume.of_list_error {v : Volume} {path : Option String} {e : VolumeError}
    (h : v.list path = .error e) :
    (∃ p, e = .notADirectory p) ∨ ∃ p, e = .insufficientPermission p := by
  unfold list at h
  split at h
  · exact .inl ⟨_, (Except.error.inj h).symm⟩
  · split at h
    · exact absurd h (by simp)
    · exact .inr ⟨_, (Except.error.inj h).symm⟩

namespace Host

/-- What the host needs for its reports is there. -/
structure Equipped (v : Volume) : Prop where
  devices : ∃ d, Report.directory v Layout.devicePath = .ok d
  networks : ∃ d, Report.directory v Layout.networkPath = .ok d

variable {h : Host}

/-! ## Outcomes -/

theorem showList_pending (h : Host) (path : Option String) :
    ∃ request, (h.showList path).2 = .ok request := by
  unfold showList
  split
  · exact ⟨_, rfl⟩
  · exact ⟨_, rfl⟩
  · exact ⟨_, rfl⟩
  · rename_i e hnot hnot' he
    rcases Volume.of_list_error he with ⟨p, rfl⟩ | ⟨p, rfl⟩
    · exact absurd rfl (hnot p)
    · exact absurd rfl (hnot' p)

theorem showHardware_pending (he : Equipped h.volume) :
    ∃ request, h.showHardware.2 = .ok request := by
  obtain ⟨d, hd⟩ := he.devices
  unfold showHardware Report.hardware
  rw [hd]
  exact ⟨_, rfl⟩

theorem showNetwork_pending (he : Equipped h.volume) (arguments : List String) :
    ∃ request, (h.showNetwork arguments).2 = .ok request := by
  obtain ⟨d, hd⟩ := he.networks
  unfold showNetwork Report.network
  cases hq : Report.Query.parse arguments with
  | error e =>
    -- no more can be wrong with the arguments than that one is no flag
    obtain ⟨_, _, _, _, _, _, rfl⟩ := Report.Query.parse_eq_error_iff.mp hq
    exact ⟨_, rfl⟩
  | ok q =>
    rw [hd]
    exact ⟨_, rfl⟩

/-- **An outcome that is feasible is presented without failure.** -/
theorem present_pending {o : Outcome} (hf : Interpreter.Feasible h.volume o)
    (he : Equipped h.volume) : ∃ request, (h.present o).2 = .ok request := by
  cases o with
  | list path => exact showList_pending h path
  | hardware => exact showHardware_pending he
  | network arguments => exact showNetwork_pending he arguments
  | edit file =>
    obtain ⟨n, hn, _⟩ := hf
    simp only [present, openEditor, hn]
    exact ⟨_, rfl⟩
  | color name hex =>
    obtain ⟨c, rfl⟩ := hf
    simp only [present, takeColor, Settings.parseColor, Rgb.ofHex?_hex]
    exact ⟨_, rfl⟩
  | _ => exact ⟨_, rfl⟩

/-! ## Steps and runs -/

/-- The volume has what the host needs, and keeps it whatever the user does. -/
structure Lasting (v : Volume) : Prop where
  sound : v.tree.Sound
  equipped : ∀ w : Volume, v.tree.Moves w.tree → Equipped w

theorem Lasting.of_moves {v w : Volume} (hl : Lasting v) (hm : v.tree.Moves w.tree) :
    Lasting w where
  sound := (hm.sound hl.sound).1
  equipped u hu := hl.equipped u (hm.trans hu)

/-- **A step ends early only if reading fails.** -/
theorem step_fault (hl : Lasting h.volume) (line : String) (scripted : Bool)
    (readings : List Reading) :
    (h.step line scripted readings).fault = none ∨
      ReadingFails readings (h.step line scripted readings).fault := by
  have hmove := Interpreter.move_execute h.now hl.sound line
  obtain ⟨request, hrequest⟩ : ∃ request, (h.enter line).2 = .ok request :=
    present_pending (Interpreter.feasible_execute h.now hl.sound line) (hl.equipped _ hmove.moves)
  rcases h.step_cases line scripted readings with
    ⟨e, he, _⟩ | ⟨_, hstep⟩ | ⟨_, _, hstep⟩ | ⟨file, name, heditor, hstep⟩
  · exact absurd (he.symm.trans hrequest) (by simp)
  · exact .inl (by rw [hstep])
  · exact .inl (by rw [hstep])
  · obtain ⟨n, rfl, hn, hf, _⟩ := of_enter_editor hl.sound heditor
    rw [hstep]
    rcases (h.enter line).1.edit_cases hn hf name scripted readings with
      ⟨hfails, _⟩ | ⟨hnone, _⟩
    · exact .inr hfails
    · exact .inl hnone

theorem ReadingFails.of_suffix {readings rest : List Reading} {fault : Option HostError}
    (h : ReadingFails rest fault) (hs : rest <:+ readings) : ReadingFails readings fault := by
  obtain ⟨reason, hmem, he⟩ := h
  exact ⟨reason, hs.subset hmem, he⟩

/-- The run has come to its end. -/
def Turn.Ended (turn : Turn) : Prop :=
  turn.fault = none ∧ (turn.host.running = false ∨ turn.rest = [])

/-- **A run goes on until the shell is left or the source is used up**, unless reading fails. -/
theorem run_cases (h : Host) (scripted : Bool) (readings : List Reading)
    (hl : Lasting h.volume) :
    (h.run scripted readings).Ended ∨ ReadingFails readings (h.run scripted readings).fault := by
  fun_induction run h scripted readings with
  | case1 h _ => exact .inl ⟨rfl, .inr rfl⟩
  | case2 h _ reason rest => exact .inr ⟨reason, List.mem_cons_self, rfl⟩
  | case3 h _ text rest turn e he =>
    have hl' : Lasting (h.prompt.echo scripted text).volume := by simpa using hl
    -- the step has failed, and that can only be because reading did
    rcases step_fault hl' text scripted rest with hnone | hfails
    · exact absurd (he.symm.trans hnone) (by simp)
    · exact .inr (hfails.of_suffix (List.suffix_cons _ _))
  | case4 h _ text rest turn he ih =>
    have hl' : Lasting (h.prompt.echo scripted text).volume := by simpa using hl
    -- the editor may have taken any number of lines, but from the front
    have hsuffix : turn.rest <:+ .line text :: rest :=
      (rest_step_suffix _ text scripted rest).trans (List.suffix_cons _ _)
    rcases ih (hl'.of_moves (step_moves hl'.sound text scripted rest)) with hended | hfails
    · exact .inl hended
    · exact .inr (hfails.of_suffix hsuffix)
  | case5 h readings hstopped => exact .inl ⟨rfl, .inl (by simpa using hstopped)⟩

/-! ## Sources -/

/-- Lines that are all there cannot fail to be read. -/
theorem not_readingFails_lines (lines : List String) (fault : Option HostError) :
    ¬ ReadingFails (lines.map .line) fault := by
  intro hex
  obtain ⟨reason, hmem, _⟩ := hex
  obtain ⟨line, _, hline⟩ := List.mem_map.mp hmem
  exact absurd hline (by simp)

/-- Reading bytes fails for one reason only. -/
theorem ReadingFails.of_bytes {bytes : List UInt8} {fault : Option HostError}
    (h : ReadingFails (Source.ofBytes bytes).readings fault) :
    fault = some (.source (.read Source.notUtf8)) := by
  obtain ⟨reason, hmem, rfl⟩ := h
  obtain ⟨chunk, _, hchunk⟩ := List.mem_map.mp hmem
  unfold Source.readBytes at hchunk
  split at hchunk
  · exact absurd hchunk (by simp)
  · rw [← Reading.failure.inj hchunk]

/-! ## Sessions -/

theorem equipped_fresh : Equipped fresh := by
  have hfound : (fresh.tree.findDirectory fresh.tree.rootNode Layout.devicePath).isSome = true ∧
      (fresh.tree.findDirectory fresh.tree.rootNode Layout.networkPath).isSome = true := by
    decide +kernel
  obtain ⟨d, hd⟩ := Option.isSome_iff_exists.mp hfound.1
  obtain ⟨d', hd'⟩ := Option.isSome_iff_exists.mp hfound.2
  exact ⟨⟨d, by rw [Report.directory, hd]⟩, ⟨d', by rw [Report.directory, hd']⟩⟩

theorem Kept.equipped {v : Volume} (h : Kept v) : Equipped v where
  devices := h.devices_eq ▸ equipped_fresh.devices
  networks := h.networks_eq ▸ equipped_fresh.networks

theorem Reached.lasting {now : Instant} {colorOutput : Bool} {saveFault : Option String}
    (hr : Reached (boot now colorOutput saveFault) h) : Lasting h.volume where
  sound := hr.kept.sound
  equipped w hm := by
    have hmoves := hr.moves_fresh.trans hm
    exact (Kept.of_moves hmoves).equipped

/--
**No input aborts the shell.**

At any time in a session, a run on a script ends only when the shell is left or every line has
been taken, and it ends without failure. A run on bytes may besides come upon bytes that are not
UTF-8, and reports just that.
-/
theorem run_never_aborts (now : Instant) (colorOutput : Bool) (saveFault : Option String) {h : Host}
    (hr : Reached (boot now colorOutput saveFault) h) :
    (∀ lines : List String, (h.run true (lines.map .line)).fault = none ∧
      ((h.run true (lines.map .line)).host.running = false ∨
        (h.run true (lines.map .line)).rest = [])) ∧
    ∀ bytes : List UInt8,
      ((h.run false (Source.ofBytes bytes).readings).fault = none ∧
        ((h.run false (Source.ofBytes bytes).readings).host.running = false ∨
          (h.run false (Source.ofBytes bytes).readings).rest = [])) ∨
      (h.run false (Source.ofBytes bytes).readings).fault =
        some (.source (.read Source.notUtf8)) := by
  constructor
  · intro lines
    rcases run_cases h true (lines.map .line) hr.lasting with hended | hfails
    · exact hended
    · exact absurd hfails (not_readingFails_lines lines _)
  · intro bytes
    rcases run_cases h false (Source.ofBytes bytes).readings hr.lasting with hended | hfails
    · exact .inl hended
    · exact .inr hfails.of_bytes

/-- After a hostile session, too. -/
theorem run_never_aborts_after_vandal :
    let start := boot ⟨0, 0⟩ true none
    let h := (start.run true (vandal.map .line)).host
    Reached start h ∧
      (∀ lines : List String, (h.run true (lines.map .line)).fault = none ∧
        ((h.run true (lines.map .line)).host.running = false ∨
          (h.run true (lines.map .line)).rest = [])) ∧
      ∀ bytes : List UInt8,
        ((h.run false (Source.ofBytes bytes).readings).fault = none ∧
          ((h.run false (Source.ofBytes bytes).readings).host.running = false ∨
            (h.run false (Source.ofBytes bytes).readings).rest = [])) ∨
        (h.run false (Source.ofBytes bytes).readings).fault =
          some (.source (.read Source.notUtf8)) := by
  intro start h
  have hr : Reached start h := .run true (vandal.map .line) .start
  exact ⟨hr, run_never_aborts ⟨0, 0⟩ true none hr⟩

end Host

end TermShell
