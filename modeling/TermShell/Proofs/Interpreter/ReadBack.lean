import TermShell.Proofs.Interpreter.Lines
import TermShell.Proofs.Interpreter.Listings
import TermShell.Proofs.Interpreter.Numbers
import TermShell.Proofs.Text.Split
import TermShell.Proofs.Volume.Resolve

/-!
# Reading a listing back

The text of a listing has a line for each entry, and from the text alone one can tell the names
again, and which of them are those of directories. For that a full name must not be empty, for the
text of one such entry would be the text of no entries; it must not hold a slash, which would be
taken for the mark of a directory; and it must not hold a line break (`Listing.read_render`).

The first two a volume asks of every name. It does not ask the third: a name with a line break in it
would be valid. It is the user who has no way to type one, because a name that comes from a line is
a word of it. So it takes lines, and not any use of a volume, to have names without blanks
(`Edited.unspaced`). An editor may write in between, since it writes no names.
-/

namespace TermShell

open Calendar (Instant)

/-! ## The text of a listing -/

namespace Listing

/-- The lines of a text; the empty text has none. -/
def linesOf (text : String) : List String :=
  if text = "" then [] else (text.toList.splitOn '\n').map String.ofList

/-- The name that a line shows, and whether it is the name of a directory. For a directory the line
ends with a slash, which does not belong to the name. -/
def readLine (line : String) : String × Bool :=
  if line.toList.getLast? = some '/' then (String.ofList line.toList.dropLast, true)
  else (line, false)

/-- What can be told from the text of a listing. -/
def read (text : String) : List (String × Bool) := (linesOf text).map readLine

/-- The full name of the entry can be told from its line and from the text around it. -/
structure Entry.Legible (e : Entry) : Prop where
  ne_empty : e.fullName ≠ ""
  no_slash : '/' ∉ e.fullName.toList
  no_newline : '\n' ∉ e.fullName.toList

namespace Entry.Legible

variable {e : Entry}

theorem readLine_line (he : e.Legible) : readLine e.line = (e.fullName, e.isDirectory) := by
  unfold readLine line
  cases e.isDirectory with
  | true => simp
  | false =>
    have hlast : e.fullName.toList.getLast? ≠ some '/' := fun h =>
      he.no_slash (List.mem_of_getLast? h)
    simp [hlast]

theorem line_ne_empty (he : e.Legible) : e.line ≠ "" := by
  have hname := he.ne_empty
  unfold line
  split
  · simp
  · exact hname

theorem newline_not_mem_line (he : e.Legible) : '\n' ∉ e.line.toList := by
  have hname := he.no_newline
  unfold line
  split
  · simpa using hname
  · exact hname

end Entry.Legible

variable {l : Listing}

/-- **The text of a listing has one line for each entry.** -/
theorem linesOf_render (h : ∀ e ∈ l.entries, e.Legible) :
    linesOf l.render = l.entries.map Entry.line := by
  have hlines : ∀ line ∈ l.entries.map Entry.line, '\n' ∉ line.toList :=
    List.forall_mem_map.mpr fun e he => (h e he).newline_not_mem_line
  unfold linesOf render
  cases hentries : l.entries with
  | nil => rfl
  | cons e es =>
    rw [hentries] at hlines h
    have hsplit := Text.splitOn_intercalate_newline (by simp) hlines
    rw [if_neg, hsplit, List.map_map]
    · simp [Function.comp_def]
    · -- the text begins with the line of the first entry
      have hfirst := (h e List.mem_cons_self).line_ne_empty
      intro hempty
      rw [hempty] at hsplit
      have hline : [] = e.line.toList := (List.cons.inj hsplit).1
      exact hfirst (String.toList_eq_nil_iff.mp hline.symm)

/-- **All entries are told by the text**, in order. -/
theorem read_render (h : ∀ e ∈ l.entries, e.Legible) :
    read l.render = l.entries.map fun e => (e.fullName, e.isDirectory) := by
  rw [read, linesOf_render h, List.map_map]
  exact List.map_congr_left fun e he => (h e he).readLine_line

end Listing

/-! ## Names from lines -/

namespace Interpreter

variable {v : Volume}

/-- The first argument is a word of the line. -/
theorem Names.solid_first {line : String} {l : CommandLine} {c : Command} (h : Names line l c)
    (hbare : l.isBare = false) : Solid l.first := by
  have hparse := h.1
  unfold CommandLine.parse at hparse
  split at hparse
  · exact absurd hparse (by simp)
  · rename_i word arguments hwords
    obtain rfl := Option.some.inj hparse
    cases arguments with
    | nil => exact absurd hbare (by simp [CommandLine.isBare])
    | cons name rest => exact Text.of_mem_words (by rw [hwords]; simp [CommandLine.first])

/-- **Lines bring no blanks into the names.** -/
theorem unspaced_execute (hv : v.tree.Sound) (h : v.tree.Unspaced) (now : Instant)
    (line : String) : (execute now v line).1.tree.Unspaced := by
  by_cases hnames : ∃ l c, Names line l c
  · obtain ⟨l, c, hl⟩ := hnames
    rw [hl.execute_eq]
    rcases settled_run now hv hl.2 with ⟨hsame, _⟩ | ⟨hbare, hdeed⟩
    · rwa [hsame]
    · intro id n' hn'
      rcases hdeed.node_cases hn' with hmakes | ⟨n, hn, _, hname, _⟩
      · rw [hmakes.fullName]
        exact (hl.solid_first hbare).2
      · rw [hname]
        exact h id n hn
  · rwa [(execute_of_not_names now v hnames).1]

end Interpreter

/-- To write into a file is no change of names. -/
theorem Volume.unspaced_write {v : Volume} (h : v.tree.Unspaced) (id : Nat) (contents : String) :
    ((Action.write id contents).perform v).tree.Unspaced := by
  simp only [Action.perform, Action.attempt, write, tree_adopt]
  rcases Tree.write_cases v.tree id contents with
    ⟨_, he⟩ | ⟨_, _, _, he⟩ | ⟨n, t', hn, _, he, halt⟩
  · rwa [he]
  · rwa [he]
  · rw [he]
    intro x n' hn'
    rcases halt.get?_cases hn' with ⟨rfl, rfl⟩ | ⟨_, hold⟩
    · rw [n.fullName_withContents contents]
      exact h _ n halt.before
    · exact h x n' hold

theorem Tree.unspaced_standard : Layout.tree.Unspaced := by
  have hall : ∀ n ∈ Layout.tree.arena.nodes, n.fullName.toList.any Text.isBlank = false := by
    decide +kernel
  intro id n hn c hc
  exact Bool.eq_false_iff.mpr (List.any_eq_false.mp (hall n (Arena.mem_of_get? hn)) c hc)

/-! ## Listings -/

namespace Interpreter

variable {v : Volume}

/-- What can become of a volume by lines and by an editor that writes into files between them. -/
inductive Edited (start : Volume) : Volume → Prop where
  | start : Edited start start
  | line {v : Volume} (now : Instant) (line : String) :
      Edited start v → Edited start (execute now v line).1
  | write {v : Volume} (id : Nat) (contents : String) :
      Edited start v → Edited start ((Volume.Action.write id contents).perform v)

/-- Lines and writing are ways to use a volume. -/
theorem Edited.used {start : Volume} (h : Edited start v) : Volume.Used start v := by
  induction h with
  | start => exact .start
  | line now line _ ih => exact used_execute ih now line
  | write id contents _ ih => exact .act _ ih

theorem Edited.unspaced (h : Edited Volume.standard v) : v.tree.Unspaced := by
  induction h with
  | start => exact Tree.unspaced_standard
  | line now line hedited ih => exact unspaced_execute hedited.used.sound_named.1 ih now line
  | write id contents _ ih => exact Volume.unspaced_write ih id contents

/-- What is listed has a valid name without blanks, and such a name is legible. -/
theorem legible_of_list (hv : v.tree.Sound) (hnamed : v.tree.Named) (hnames : v.tree.Unspaced)
    {path : Option String} {listing : Listing} (h : v.list path = .ok listing) :
    ∀ e ∈ listing.entries, e.Legible := by
  rcases v.list_cases path with ⟨_, he⟩ | ⟨d, hd, ⟨_, he⟩ | ⟨_, he⟩⟩
  · exact absurd (he.symm.trans h) (by simp)
  · exact absurd (he.symm.trans h) (by simp)
  · obtain rfl := Except.ok.inj (he.symm.trans h)
    refine List.forall_mem_map.mpr fun n hn => ?_
    obtain ⟨hget, hc⟩ := Tree.mem_childrenOf.mp hn
    have hdir := (Tree.directory?_eq_some_iff.mp (Volume.directory?_of_listed hv hd)).1
    have hlisted : v.tree.arena.Lists d.id n.id := ⟨d, hdir, hc⟩
    have hroot : n.id ≠ v.tree.root := fun hid => hv.rooted.root_not_listed _ (hid ▸ hlisted)
    obtain ⟨hempty, _, _, hslash, _⟩ := Path.isValidName_iff.mp (hnamed n.id n hget hroot)
    refine ⟨hempty, hslash, fun hnewline => ?_⟩
    exact absurd (hnames n.id n hget _ hnewline) (by decide)

/--
**A listing can be read back from its text.**

Whatever lines have been typed on a fresh system, and whatever an editor has written in between: if
a path can be listed, the text of the listing has one line for each entry, in order, and the line
shows the full name of the entry, with a slash behind it exactly if the entry is a directory.
-/
theorem listing_read_back (h : Edited Volume.standard v) {path : Option String}
    {listing : Listing} (hlist : v.list path = .ok listing) :
    Listing.linesOf listing.render = listing.entries.map Listing.Entry.line ∧
      Listing.read listing.render = listing.entries.map fun e => (e.fullName, e.isDirectory) := by
  obtain ⟨hsound, hnamed⟩ := h.used.sound_named
  have hlegible := legible_of_list hsound hnamed h.unspaced hlist
  exact ⟨Listing.linesOf_render hlegible, Listing.read_render hlegible⟩

/-- The user has made a file and a directory of one name at home, and written into the file. -/
theorem listing_read_back_at_home :
    let made := (execute ⟨0, 0⟩ (execute ⟨0, 0⟩ Volume.standard "mf list.txt").1 "md list.txt").1
    let v := (Volume.Action.write 54 "milk/\n").perform made
    Edited Volume.standard v ∧ ∃ listing, v.list none = .ok listing ∧
      Listing.linesOf listing.render = listing.entries.map Listing.Entry.line ∧
      Listing.read listing.render =
        [("mail", true), ("list.txt", false), ("list.txt", true)] := by
  intro made v
  have hedited : Edited Volume.standard v := .write _ _ (.line _ _ (.line _ _ .start))
  have hshown : (v.list none).map (·.entries.map fun e => (e.fullName, e.isDirectory)) =
      .ok [("mail", true), ("list.txt", false), ("list.txt", true)] := by decide +kernel
  cases hlist : v.list none with
  | error e => exact absurd (hlist ▸ hshown) (by simp [Except.map])
  | ok listing =>
    obtain ⟨hlines, hread⟩ := listing_read_back hedited hlist
    rw [hlist] at hshown
    exact ⟨hedited, listing, rfl, hlines, hread.trans (Except.ok.inj hshown)⟩

end Interpreter

end TermShell
