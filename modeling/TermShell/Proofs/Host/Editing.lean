import TermShell.Proofs.Host.Entry
import TermShell.Proofs.Volume.Overwrite

/-!
# The editor

The editor takes the lines that are typed behind the one that opens it. They are contents and
nothing else: a line that looks like a command is not carried out, and an empty one is kept. One
line alone is different, the one that ends the input.

When the input has ended, the file holds the lines, and all else in the tree is as it was
(`Tree.write_eq_overwrite`). The editor finds its file by name among the children of the current
directory, whereas a file to be shown is found by a path. For a name without slashes it is the same
file (`Volume.resolveFile_of_find`), and since no lookup depends on what files hold, it is still the
same one after the edit. So what has been entered is what is shown.
-/

namespace TermShell

open Calendar (Instant)

/-- To give a file other contents changes no other of its fields. -/
theorem Node.withContents_of_isFile {n : Node} (h : n.isFile = true) (contents : String) :
    n.withContents contents = { n with body := .file n.extension contents } := by
  rcases n with ⟨_, _, _, _, _, _ | _⟩
  · rfl
  · exact absurd h (by simp [isFile, isDirectory])

namespace Host

variable {h : Host} {name : String} {f : Node}

/-- The readings hold the lines for the editor and end its input, or end with them; what remains
is the rest. -/
def Enters (readings : List Reading) (lines : List String) (rest : List Reading) : Prop :=
  readings = lines.map .line ++ .line terminator :: rest ∨
    readings = lines.map .line ∧ rest = []

theorem collect_of_enters {readings rest : List Reading} {lines : List String}
    (hlines : ∀ line ∈ lines, line ≠ terminator) (hr : Enters readings lines rest) :
    (collect readings).lines = lines ∧ (collect readings).rest = rest ∧
      (collect readings).failure = none := by
  rcases hr with rfl | ⟨rfl, rfl⟩
  · rw [collect_append hlines, collect, if_pos rfl]
    exact ⟨List.append_nil lines, rfl, rfl⟩
  · rw [← List.append_nil (lines.map Reading.line), collect_append hlines]
    exact ⟨List.append_nil lines, rfl, rfl⟩

/-- **The editor writes the lines that are entered**, on a file that a name finds. -/
theorem step_edit (hsolid : Interpreter.Solid name)
    (hfind : h.volume.find name Node.isFile = .ok f) (hwrites : f.permissions.userWrites = true)
    {lines : List String} (hlines : ∀ line ∈ lines, line ≠ terminator) (scripted : Bool)
    {readings rest : List Reading} (hr : Enters readings lines rest) :
    ∃ output, h.step ("edit " ++ name) scripted readings =
      ⟨{ h with
        volume := h.volume.overwrite (Tree.writing f.id (String.intercalate "\n" lines))
        steps := h.steps + 1
        output }, rest, none⟩ := by
  obtain ⟨hf, hfile⟩ := Volume.get?_of_find hfind
  obtain ⟨hcollected, hrest, hfailure⟩ := collect_of_enters hlines hr
  have hwrite := Volume.write_eq_overwrite h.volume hf hfile (String.intercalate "\n" lines)
  rw [step_of_edit (Interpreter.answers_editFile hsolid hfind hwrites h.now) hf]
  rcases edit_turn_cases { h with steps := h.steps + 1 } f.id f.fullName scripted readings with
    ⟨e, _, hfails, _⟩ | ⟨e, _, _, hrefused, _⟩ | ⟨v, output, _, hwritten, he⟩
  · exact absurd (hfailure.symm.trans hfails) (by simp)
  · rw [hcollected] at hrefused
    exact absurd (hwrite.symm.trans hrefused) (by simp)
  · rw [hcollected] at hwritten
    obtain rfl := Except.ok.inj (hwrite.symm.trans hwritten)
    exact ⟨output, by rw [he, hrest]⟩

/-- **What has been written to a file is shown**, if it may be. -/
theorem execute_viewFile_overwrite (now : Instant) {v : Volume} (hsolid : Interpreter.Solid name)
    (hslash : Path.separator ∉ name.toList) (hfind : v.find name Node.isFile = .ok f)
    (hexec : f.permissions.isExecutable = false) (hreads : f.permissions.userReads = true)
    (contents : String) :
    Interpreter.execute now (v.overwrite (Tree.writing f.id contents)) ("vw " ++ name) =
      (v.overwrite (Tree.writing f.id contents), .message contents) := by
  -- the file is found where it was, with its permissions and the new contents
  have hfile : (v.overwrite (Tree.writing f.id contents)).resolveFile name =
      some (f.withContents contents) := by
    rw [Volume.resolveFile_overwrite, Volume.resolveFile_of_find hslash hfind, Option.map_some,
      Tree.overwrite_writing]
  rw [Interpreter.answers_viewFile hsolid hfile (by simpa using hexec) (by simpa using hreads) now,
    Node.text_withContents (Volume.get?_of_find hfind).2]

/--
**The editor replaces what a file holds by the lines that are entered**, and nothing else.

Whatever the tree is like: let a word without slashes name a file that the user may write. The
step that edits it takes the lines up to the one that ends the input, or all that there are, and
leaves what comes behind them. Then the file holds the lines, with line feeds between them, be they
empty or like commands; all else about it, all other nodes, the root and the current directory are
as they were, and so is the host, but for the line it has counted and what it has written. If the
user may read the file and it is no program, the next line can ask for it, and is answered with a
message that is just that text.
-/
theorem edit_replaces_contents (hsolid : Interpreter.Solid name)
    (hslash : Path.separator ∉ name.toList) (hfind : h.volume.find name Node.isFile = .ok f)
    (hwrites : f.permissions.userWrites = true) {lines : List String}
    (hlines : ∀ line ∈ lines, line ≠ terminator) (scripted : Bool) {readings rest : List Reading}
    (hr : Enters readings lines rest) :
    let turn := h.step ("edit " ++ name) scripted readings
    let text := String.intercalate "\n" lines
    turn.fault = none ∧ turn.rest = rest ∧
      (∃ volume output, turn.host = { h with volume, steps := h.steps + 1, output } ∧
        volume.next = h.volume.next ∧
        h.volume.tree.Altered f { f with body := .file f.extension text } volume.tree) ∧
      (f.permissions.userReads = true → f.permissions.isExecutable = false →
        Interpreter.execute turn.host.now turn.host.volume ("vw " ++ name) =
          (turn.host.volume, .message text) ∧
        ∀ scripted' readings', turn.host.step ("vw " ++ name) scripted' readings' =
          ⟨print { turn.host with steps := h.steps + 2 } text, readings', none⟩) := by
  intro turn text
  obtain ⟨output, hturn⟩ := step_edit hsolid hfind hwrites hlines scripted hr
  have hturn : turn = _ := hturn
  rw [hturn]
  refine ⟨rfl, rfl, ⟨_, output, rfl, rfl, ?_⟩, fun hreads hexec => ?_⟩
  · obtain ⟨hf, hfile⟩ := Volume.get?_of_find hfind
    obtain ⟨v, hwrite, halt⟩ := Volume.write_of_get? hf hfile text
    rw [Volume.write_eq_overwrite _ hf hfile] at hwrite
    rw [← Node.withContents_of_isFile hfile, Except.ok.inj hwrite]
    exact halt
  · have hshown := execute_viewFile_overwrite h.now hsolid hslash hfind hexec hreads text
    exact ⟨hshown, step_of_message hshown⟩

/-- The user has gone to the mail, where there is one file. -/
def atMail : Host := ((boot ⟨0, 0⟩ true none).step "cd mail" true []).host

/-- The mail is replaced by a line that would leave the shell, an empty one and one that is the end
of the input but for a blank. The file is called by its bare name. -/
theorem edit_replaces_contents_of_mail :
    let name := "welcome-to-terminal-os"
    let lines := ["exit", "", ". "]
    let readings := lines.map .line ++ .line terminator :: [.line "now"]
    ∃ f, Interpreter.Solid name ∧ Path.separator ∉ name.toList ∧
      atMail.volume.find name Node.isFile = .ok f ∧ f.permissions.userWrites = true ∧
      (∀ line ∈ lines, line ≠ terminator) ∧ Enters readings lines [.line "now"] ∧
      let turn := atMail.step ("edit " ++ name) true readings
      turn.fault = none ∧ turn.rest = [.line "now"] ∧ turn.host.steps = 2 ∧
        (Interpreter.execute turn.host.now turn.host.volume ("vw " ++ name)).2 =
          .message "exit\n\n. " ∧
        turn.host.step ("vw " ++ name) true [] =
          ⟨print { turn.host with steps := 3 } "exit\n\n. ", [], none⟩ := by
  intro name lines readings
  have hfound : ∃ f, atMail.volume.find name Node.isFile = .ok f ∧
      f.permissions = .userReadWrite := by
    cases hfind : atMail.volume.find name Node.isFile with
    | error e =>
      have hsome : (atMail.volume.find name Node.isFile).isOk = true := by decide +kernel
      rw [hfind] at hsome
      exact absurd hsome (by simp [Except.isOk, Except.toBool])
    | ok f =>
      have hall : ∀ f ∈ (atMail.volume.find name Node.isFile).toOption,
          f.permissions = .userReadWrite := by decide +kernel
      exact ⟨f, rfl, hall f (by rw [hfind]; rfl)⟩
  obtain ⟨f, hfind, hpermissions⟩ := hfound
  have hsolid : Interpreter.Solid name := by decide +kernel
  have hslash : Path.separator ∉ name.toList := by decide +kernel
  have hwrites : f.permissions.userWrites = true := by rw [hpermissions]; decide
  have hlines : ∀ line ∈ lines, line ≠ terminator := by decide +kernel
  have hr : Enters readings lines [.line "now"] := .inl rfl
  have hsteps : atMail.steps = 1 := by decide +kernel
  obtain ⟨hfault, hrest, ⟨_, _, hhost, _⟩, hshown⟩ :=
    edit_replaces_contents hsolid hslash hfind hwrites hlines true hr
  have hreads : f.permissions.userReads = true := by rw [hpermissions]; decide
  have hexec : f.permissions.isExecutable = false := by rw [hpermissions]; decide
  obtain ⟨hmessage, hstep⟩ := hshown hreads hexec
  refine ⟨f, hsolid, hslash, hfind, hwrites, hlines, hr, hfault, hrest, ?_, ?_, ?_⟩
  · rw [hhost, hsteps]
  · rw [hmessage]
    rfl
  · rw [hstep, hsteps]
    rfl

end Host

end TermShell
