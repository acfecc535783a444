import TermShell.Proofs.Interpreter.Lines
import TermShell.Proofs.Text.Case

/-!
# How a command is spelled

A command has several names, and each of them can be written in any letter case and with any blanks
around it. None of this reaches what the command does: a line is carried out according to the
command that its first word names and to the words behind it (`execute_of_spelling`). Only the help
looks at the word itself, when nothing follows it, and it is help on the command that the word
names.
-/

namespace TermShell

open Calendar (Instant)

/-- **A word names a command if it is one of its aliases**, in whatever letter case. -/
theorem Command.ofWord?_eq_some_iff {word : String} {c : Command} :
    ofWord? word = some c ↔ Text.foldCase word ∈ c.aliases := by
  constructor
  · intro h
    have hnamed := List.find?_some h
    exact List.contains_iff_mem.mp hnamed
  · intro h
    rw [← c.ofWord?_of_mem_aliases _ h, ofWord?, ofWord?, Text.foldCase_foldCase]

namespace Interpreter

variable {l l' : CommandLine} {c : Command}

/-- Help that nothing is asked about is on the command itself. -/
theorem help_of_command (v : Volume) (hc : l.command? = some c) (hbare : l.isBare = true) :
    help v l = .message (Help.page v c) := by
  have hnil : l.arguments = [] := List.isEmpty_iff.mp hbare
  have hword : Command.ofWord? l.word = some c := hc
  rw [help, hnil, List.headD_nil, Help.topic, hword, Option.getD_some]

/-- **What a command does depends on its arguments** and not on the word that names it. -/
theorem perform_congr (now : Instant) (v : Volume) (hc : l.command? = some c)
    (hc' : l'.command? = some c) (harguments : l'.arguments = l.arguments) :
    perform now v c l' = perform now v c l := by
  have hhelp : help v l' = help v l := by
    cases hbare : l.isBare with
    | true =>
      have hbare' : l'.isBare = true := by rw [CommandLine.isBare, harguments]; exact hbare
      rw [help_of_command v hc hbare, help_of_command v hc' hbare']
    | false =>
      obtain ⟨topic, rest, hcons⟩ := List.exists_cons_of_ne_nil (List.isEmpty_eq_false_iff.mp hbare)
      rw [help, help, harguments, hcons, List.headD_cons, List.headD_cons]
  -- all other handlers take the arguments and leave the word
  have hfirst : l'.first = l.first := by rw [CommandLine.first, harguments, CommandLine.first]
  have hsecond : l'.second = l.second := by rw [CommandLine.second, harguments, CommandLine.second]
  have hrecurses : recurses l' = recurses l := by rw [recurses, harguments, recurses]
  cases c with
  | help | commands => exact congrArg (Prod.mk v) hhelp
  | listDirectory | network => rw [perform, perform, harguments]
  | changePermissions => simp only [perform, changePermissions, hfirst, hsecond]
  | deleteDirectory => simp only [perform, deleteDirectory, hfirst, hrecurses]
  | changeDirectory =>
    show changeDirectory v l' = changeDirectory v l
    unfold changeDirectory
    rw [hfirst]
  | _ =>
    simp only [perform, changeColor, viewFile, makeFile, makeDirectory, editFile, viewPermissions,
      deleteFile, hfirst]

/-- Lines that name the same command, with the same arguments, are carried out alike. -/
theorem Names.execute_congr {line line' : String} (h : Names line l c) (h' : Names line' l' c)
    (harguments : l'.arguments = l.arguments) (now : Instant) (v : Volume) :
    execute now v line' = execute now v line := by
  have hbare : l'.isBare = l.isBare := by rw [CommandLine.isBare, harguments, CommandLine.isBare]
  rw [h.execute_eq, h'.execute_eq, run, run, h.2, h'.2]
  dsimp only
  rw [hbare, perform_congr now v h.2 h'.2 harguments]

/-- A command that needs an argument and has none shows its help. -/
theorem Names.execute_of_bare {line : String} (h : Names line l c) (hneeds : c.needsArgument = true)
    (hbare : l.isBare = true) (now : Instant) (v : Volume) :
    execute now v line = (v, .message (Help.page v c)) := by
  rw [h.execute_eq, run, h.2]
  simp [hneeds, hbare]

/-- Someone who asks for help on a command is shown it. -/
theorem execute_help_on (now : Instant) (v : Volume) {line word topic : String}
    {more : List String} (hwords : Text.words line = word :: topic :: more)
    (hword : Command.ofWord? word = some .help) (htopic : Command.ofWord? topic = some c) :
    execute now v line = (v, .message (Help.page v c)) := by
  have hnames : Names line ⟨word, topic :: more⟩ .help :=
    ⟨by rw [CommandLine.parse, hwords], hword⟩
  rw [hnames.execute_eq, run, hnames.2]
  show (v, Outcome.message (Help.topic v topic)) = _
  rw [Help.topic, htopic, Option.getD_some]

/--
**Only the command counts and what stands behind it**, on any tree.

A word names a command if it is one of its aliases, in whatever letter case. Two lines whose first
words name the same command and whose other words are the same, with whatever blanks between them,
have the same outcome and leave the same volume. And if the command needs an argument, a line with
nothing but a name of it changes nothing and is answered like a line that asks for help on that
name.
-/
theorem execute_of_spelling (now : Instant) (v : Volume) :
    (∀ word c, Command.ofWord? word = some c ↔ Text.foldCase word ∈ c.aliases) ∧
    (∀ line line' word word' arguments c, Text.words line = word :: arguments →
      Text.words line' = word' :: arguments → Command.ofWord? word = some c →
      Command.ofWord? word' = some c → execute now v line' = execute now v line) ∧
    ∀ line line' word help c, c.needsArgument = true → Command.ofWord? word = some c →
      Command.ofWord? help = some .help → Text.words line = [word] →
      Text.words line' = [help, word] →
      execute now v line = execute now v line' ∧ (execute now v line).1 = v := by
  refine ⟨fun word c => Command.ofWord?_eq_some_iff, ?_, ?_⟩
  · intro line line' word word' arguments c hwords hwords' hword hword'
    have hnames : Names line ⟨word, arguments⟩ c := ⟨by rw [CommandLine.parse, hwords], hword⟩
    have hnames' : Names line' ⟨word', arguments⟩ c :=
      ⟨by rw [CommandLine.parse, hwords'], hword'⟩
    exact hnames.execute_congr hnames' rfl now v
  · intro line line' word help c hneeds hword hhelp hwords hwords'
    have hnames : Names line ⟨word, []⟩ c := ⟨by rw [CommandLine.parse, hwords], hword⟩
    rw [hnames.execute_of_bare hneeds rfl, execute_help_on now v hwords' hhelp hword]
    exact ⟨rfl, rfl⟩

/-- A file is made by another alias, with a sign for a kelvin in it and a wide blank behind it; and
a word alone, in capitals, is a question. -/
theorem execute_of_spelling_of_makeFile :
    let line := "mf note.txt"
    let line' := "\tMA\u212AEfile\u3000note.txt "
    Text.words line = ["mf", "note.txt"] ∧ Text.words line' = ["MA\u212AEfile", "note.txt"] ∧
      Command.ofWord? "mf" = some .makeFile ∧ Command.ofWord? "MA\u212AEfile" = some .makeFile ∧
      execute ⟨0, 0⟩ Volume.standard line' = execute ⟨0, 0⟩ Volume.standard line ∧
      Command.needsArgument .makeFile = true ∧ Command.ofWord? "MF" = some .makeFile ∧
      Command.ofWord? "Help" = some .help ∧ Text.words " MF" = ["MF"] ∧
      Text.words "Help MF" = ["Help", "MF"] ∧
      execute ⟨0, 0⟩ Volume.standard " MF" = execute ⟨0, 0⟩ Volume.standard "Help MF" := by
  intro line line'
  have hwords : Text.words line = ["mf", "note.txt"] := by decide +kernel
  have hwords' : Text.words line' = ["MA\u212AEfile", "note.txt"] := by decide +kernel
  have hword : Command.ofWord? "mf" = some .makeFile := by decide +kernel
  have hword' : Command.ofWord? "MA\u212AEfile" = some .makeFile := by decide +kernel
  have hcapitals : Command.ofWord? "MF" = some .makeFile := by decide +kernel
  have hhelp : Command.ofWord? "Help" = some .help := by decide +kernel
  have halone : Text.words " MF" = ["MF"] := by decide +kernel
  have hasked : Text.words "Help MF" = ["Help", "MF"] := by decide +kernel
  obtain ⟨_, hsame, hpage⟩ := execute_of_spelling ⟨0, 0⟩ Volume.standard
  exact ⟨hwords, hwords', hword, hword', hsame _ _ _ _ _ _ hwords hwords' hword hword', rfl,
    hcapitals, hhelp, halone, hasked, (hpage _ _ _ _ _ rfl hcapitals hhelp halone hasked).1⟩

end Interpreter

end TermShell
