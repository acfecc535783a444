import Mathlib.Data.List.Flatten
import TermShell.Proofs.Text.Split
import TermShell.Report.Network

/-!
# Flags as a set

What the arguments of the network report come to depends on nothing but the set of flags they
spell (`Query.parse_congr`), and they come to a query unless one of them spells none, where the
first of these is named (`Query.parse_eq_error_iff`).

Of the flags, the one for active networks has no part in the columns. So with it a report is made
from some of the networks of the report without it, each with the same line (`networkLines_active`),
and the lines of the text, too, are some of the lines there.
-/

namespace TermShell.Report

/-! ## Spellings -/

namespace Flag

/-- The argument is a spelling of the flag, in letters of either case. -/
def Spelled (f : Flag) (argument : String) : Prop :=
  ∃ words, (f, words) ∈ spellings ∧ Text.foldCase argument ∈ words

/-- The argument is a spelling of a flag. -/
def IsSpelling (argument : String) : Prop :=
  Text.foldCase argument ∈ spellings.flatMap Prod.snd

example : spellings.flatMap Prod.snd =
    ["-a", "--active", "-n", "--name", "-d", "--device", "-v6", "--ipv6", "-v8", "--ipv8"] := rfl

instance : DecidablePred IsSpelling := fun argument =>
  inferInstanceAs (Decidable (Text.foldCase argument ∈ spellings.flatMap Prod.snd))

theorem isSpelling_iff {argument : String} :
    IsSpelling argument ↔ ∃ f : Flag, f.Spelled argument := by
  simp only [IsSpelling, Spelled, List.mem_flatMap]
  constructor
  · rintro ⟨⟨f, words⟩, hmem, hword⟩
    exact ⟨f, words, hmem, hword⟩
  · rintro ⟨f, words, hmem, hword⟩
    exact ⟨(f, words), hmem, hword⟩

/-- **An argument is read as the flag it spells**; no two flags share a spelling. -/
theorem ofArgument?_eq_some_iff {argument : String} {f : Flag} :
    ofArgument? argument = some f ↔ f.Spelled argument := by
  have hapart : ∀ s ∈ spellings, ∀ word ∈ s.2,
      spellings.find? (·.2.contains word) = some s := by decide +kernel
  unfold ofArgument?
  constructor
  · intro h
    obtain ⟨⟨f', words⟩, hfound, rfl⟩ := Option.map_eq_some_iff.mp h
    have hword := List.find?_some hfound
    exact ⟨words, List.mem_of_find?_eq_some hfound, List.contains_iff_mem.mp hword⟩
  · rintro ⟨words, hmem, hword⟩
    rw [hapart (f, words) hmem _ hword]
    rfl

theorem ofArgument?_eq_none_iff {argument : String} :
    ofArgument? argument = none ↔ ¬ IsSpelling argument := by
  rw [isSpelling_iff, Option.eq_none_iff_forall_ne_some]
  simp only [ne_eq, ofArgument?_eq_some_iff, not_exists]

end Flag

/-! ## Queries -/

namespace Query

variable {arguments : List String}

/-- One of the arguments asks for this. -/
def Asks (arguments : List String) (f : Flag) : Prop := ∃ argument ∈ arguments, f.Spelled argument

/-- **The arguments are read as flags**, up to the first that is none. -/
theorem flags_eq (arguments : List String) :
    flags arguments = match arguments.find? fun a => ¬ Flag.IsSpelling a with
      | some a => .error (.unknownNetworkArgument a)
      | none => .ok (arguments.filterMap Flag.ofArgument?) := by
  induction arguments with
  | nil => rfl
  | cons argument rest ih =>
    unfold flags
    cases hflag : Flag.ofArgument? argument with
    | none =>
      have hno := Flag.ofArgument?_eq_none_iff.mp hflag
      rw [List.find?_cons_of_pos (by simpa using hno)]
    | some f =>
      have hyes : Flag.IsSpelling argument :=
        Flag.isSpelling_iff.mpr ⟨f, Flag.ofArgument?_eq_some_iff.mp hflag⟩
      rw [List.find?_cons_of_neg (by simpa using hyes), List.filterMap_cons_some hflag]
      dsimp only
      rw [ih]
      cases rest.find? fun a => ¬ Flag.IsSpelling a <;> rfl

/-- **An argument that is no flag is refused**, and of several the first. -/
theorem parse_eq_error_iff {e : ReportError} :
    parse arguments = .error e ↔
      ∃ before argument after, arguments = before ++ argument :: after ∧
        (∀ a ∈ before, Flag.IsSpelling a) ∧ ¬ Flag.IsSpelling argument ∧
        e = .unknownNetworkArgument argument := by
  have hfind : parse arguments = .error e ↔
      ∃ a, (arguments.find? fun a => ¬ Flag.IsSpelling a) = some a ∧
        e = .unknownNetworkArgument a := by
    rw [parse, flags_eq]
    cases arguments.find? fun a => ¬ Flag.IsSpelling a <;> simp [Except.map, eq_comm]
  rw [hfind]
  constructor
  · rintro ⟨a, hfound, he⟩
    obtain ⟨hno, before, after, harguments, hbefore⟩ := List.find?_eq_some_iff_append.mp hfound
    exact ⟨before, a, after, harguments, by simpa using hbefore, by simpa using hno, he⟩
  · rintro ⟨before, a, after, harguments, hbefore, hno, he⟩
    refine ⟨a, List.find?_eq_some_iff_append.mpr ⟨by simpa using hno, before, after, ?_⟩, he⟩
    exact ⟨harguments, by simpa using hbefore⟩

theorem exists_error_iff :
    (∃ e, parse arguments = .error e) ↔ ∃ a ∈ arguments, ¬ Flag.IsSpelling a := by
  rw [parse, flags_eq]
  cases hfind : arguments.find? fun a => ¬ Flag.IsSpelling a with
  | none =>
    have hall := List.find?_eq_none.mp hfind
    simpa [Except.map] using hall
  | some a =>
    have hno := List.find?_some hfind
    exact ⟨fun _ => ⟨a, List.mem_of_find?_eq_some hfind, by simpa using hno⟩, fun _ => ⟨_, rfl⟩⟩

theorem spelled_of_parse {q : Query} (h : parse arguments = .ok q) :
    ∀ a ∈ arguments, Flag.IsSpelling a := by
  intro a ha
  refine Decidable.byContradiction fun hno => ?_
  obtain ⟨e, he⟩ := exists_error_iff.mpr ⟨a, ha, hno⟩
  exact absurd (h.symm.trans he) (by simp)

theorem asks_iff {f : Flag} :
    Asks arguments f ↔ f ∈ arguments.filterMap Flag.ofArgument? := by
  simp only [List.mem_filterMap, Flag.ofArgument?_eq_some_iff, Asks]

instance (arguments : List String) (f : Flag) : Decidable (Asks arguments f) :=
  decidable_of_iff _ asks_iff.symm

/-- Arguments that are all flags come to the query of the flags they ask for. -/
theorem parse_of_spelled (h : ∀ a ∈ arguments, Flag.IsSpelling a) :
    parse arguments = .ok (ofFlags (arguments.filterMap Flag.ofArgument?)) := by
  have hnone : (arguments.find? fun a => ¬ Flag.IsSpelling a) = none := by
    rw [List.find?_eq_none]
    exact fun a ha => by simpa using h a ha
  rw [parse, flags_eq, hnone]
  rfl

/-- Only the set of flags matters. -/
theorem ofFlags_congr {fs fs' : List Flag} (h : ∀ f, f ∈ fs ↔ f ∈ fs') :
    ofFlags fs = ofFlags fs' := by
  have hcontains : ∀ f, fs.contains f = fs'.contains f := by
    intro f
    rw [List.contains_eq_mem, List.contains_eq_mem, decide_eq_decide]
    exact h f
  have hselected : selected fs = selected fs' := List.filter_congr fun c _ => hcontains _
  rw [ofFlags, hcontains, hselected, ofFlags]

/-- The flag for active networks has no part in the columns. -/
theorem ofFlags_active (fs : List Flag) :
    ofFlags (.active :: fs) = { ofFlags fs with activeOnly := true } := by
  simp [ofFlags, selected]

/-- The query asks for what the arguments ask for. -/
structure Fits (arguments : List String) (q : Query) : Prop where
  activeOnly_iff : q.activeOnly = true ↔ Asks arguments .active
  /-- The columns come in their own order. -/
  ordered : q.columns.Sublist Column.all
  nodup : q.columns.Nodup
  /-- If columns are asked for, these are shown. -/
  mem_columns_iff : (∃ c, Asks arguments (.column c)) →
    ∀ c, c ∈ q.columns ↔ Asks arguments (.column c)
  /-- If none is asked for, all are shown. -/
  columns_eq_all : (∀ c, ¬ Asks arguments (.column c)) → q.columns = Column.all

theorem mem_selected {fs : List Flag} {c : Column} : c ∈ selected fs ↔ .column c ∈ fs := by
  have hall : c ∈ Column.all := by cases c <;> decide
  simp [selected, hall]

theorem fits_of_parse {q : Query} (h : parse arguments = .ok q) : Fits arguments q := by
  obtain rfl := Except.ok.inj ((parse_of_spelled (spelled_of_parse h)).symm.trans h)
  have hcolumn : ∀ c, Asks arguments (.column c) ↔
      c ∈ selected (arguments.filterMap Flag.ofArgument?) := fun c =>
    asks_iff.trans mem_selected.symm
  have hordered :
      (ofFlags (arguments.filterMap Flag.ofArgument?)).columns.Sublist Column.all := by
    unfold ofFlags
    dsimp only
    split
    · exact List.Sublist.refl _
    · exact List.filter_sublist
  constructor
  · rw [asks_iff]
    exact List.contains_iff_mem
  · exact hordered
  · exact hordered.nodup (by decide)
  · rintro ⟨c, hc⟩ c'
    have hne := List.isEmpty_eq_false_iff.mpr (List.ne_nil_of_mem ((hcolumn c).mp hc))
    rw [hcolumn, ofFlags, hne]
    rfl
  · intro hno
    have hnil : selected (arguments.filterMap Flag.ofArgument?) = [] :=
      List.eq_nil_iff_forall_not_mem.mpr fun c hc => hno c ((hcolumn c).mpr hc)
    rw [ofFlags, hnil]
    rfl

/-- **Arguments that ask for the same come to the same query.** -/
theorem parse_congr {arguments' : List String} {q q' : Query} (h : parse arguments = .ok q)
    (h' : parse arguments' = .ok q') (hsame : ∀ f, Asks arguments f ↔ Asks arguments' f) :
    q = q' := by
  obtain rfl := Except.ok.inj ((parse_of_spelled (spelled_of_parse h)).symm.trans h)
  obtain rfl := Except.ok.inj ((parse_of_spelled (spelled_of_parse h')).symm.trans h')
  refine ofFlags_congr fun f => ?_
  rw [← asks_iff, ← asks_iff, hsame]

/-- **One more argument for active networks changes nothing else in the query.** -/
theorem parse_active {before after : List String} {argument : String} {q : Query}
    (h : parse (before ++ after) = .ok q) (hactive : Flag.Spelled .active argument) :
    parse (before ++ argument :: after) = .ok { q with activeOnly := true } := by
  have hread := Flag.ofArgument?_eq_some_iff.mpr hactive
  have hspelled : ∀ a ∈ before ++ argument :: after, Flag.IsSpelling a := by
    have hothers := spelled_of_parse h
    have hargument := Flag.isSpelling_iff.mpr ⟨.active, hactive⟩
    simp only [List.mem_append, List.mem_cons] at hothers ⊢
    rintro a (ha | rfl | ha)
    · exact hothers a (.inl ha)
    · exact hargument
    · exact hothers a (.inr ha)
  obtain rfl := Except.ok.inj ((parse_of_spelled (spelled_of_parse h)).symm.trans h)
  rw [parse_of_spelled hspelled, ← ofFlags_active]
  refine congrArg Except.ok (ofFlags_congr fun f => ?_)
  -- in the list of flags the additional one stands somewhere else
  simp only [List.filterMap_append, List.filterMap_cons_some hread, List.mem_append, List.mem_cons]
  exact or_left_comm

end Query

/-! ## Lines -/

/-- The network is active, as its description says. -/
def isActive (file : Node) : Bool :=
  ((Config.parse file.text).bind fun config => config.get? "active") == some "true"

/-- To ask for active networks is to leave out the others. -/
theorem networkLine_active (q : Query) (file : Node) :
    networkLine { q with activeOnly := true } file =
      if isActive file then networkLine q file else none := by
  unfold networkLine isActive
  cases Config.parse file.text with
  | none => simp
  | some config =>
    by_cases hactive : config.get? "active" = some "true"
    · simp [hactive]
    · simp [hactive]

/-- **The lines of the active networks are what remains of the lines.** -/
theorem networkLines_active (t : Tree) (q : Query) (networks : Node) :
    networkLines t { q with activeOnly := true } networks =
      (((t.childrenOf networks).filter Node.isFile).filter isActive).filterMap (networkLine q) := by
  rw [networkLines, funext (networkLine_active q)]
  exact List.filterMap_filter.symm

theorem networkLines_active_sublist (t : Tree) (q : Query) (networks : Node) :
    (networkLines t { q with activeOnly := true } networks).Sublist
      (networkLines t q networks) := by
  rw [networkLines_active]
  exact List.filter_sublist.filterMap (networkLine q)

/-! ## Texts -/

/-- **Without some of its lines the text has lost nothing else**, unless it has none left. -/
theorem networkText_of_sublist {lines lines' : List String} (h : lines'.Sublist lines) :
    networkText lines' = "No networks found." ∨
      ((networkText lines').toList.splitOn '\n').Sublist
        ((networkText lines).toList.splitOn '\n') := by
  have htext : ∀ ls : List String, ls ≠ [] → networkText ls = String.intercalate "\n" ls := by
    intro ls hls
    cases ls with
    | nil => exact absurd rfl hls
    | cons line rest => rfl
  by_cases hnil : lines' = []
  · exact .inl (by rw [hnil]; rfl)
  · have hnil' : lines ≠ [] := fun he => hnil (List.sublist_nil.mp (he ▸ h))
    rw [htext _ hnil, htext _ hnil', Text.splitOn_intercalate_newline_eq_flatMap hnil,
      Text.splitOn_intercalate_newline_eq_flatMap hnil']
    exact .inr (h.flatMap _)

/-! ## Reports -/

/-- The second report has some of the lines of the first, in their order, or it says that there is
nothing to report; and there is a second exactly if there is a first. -/
def LeavesOut : Except ReportError String → Except ReportError String → Prop
  | .ok text, .ok text' =>
    text' = "No networks found." ∨
      (text'.toList.splitOn '\n').Sublist (text.toList.splitOn '\n')
  | .error e, .error e' => e = e'
  | _, _ => False

/--
**The flags of the network report are a set.**

The arguments are refused if and only if one of them is no spelling of a flag, and then the first
such argument is named. Arguments that are accepted and ask for the same flags come to the same
query and the same report, on every volume. The columns of a query come in their own order, each
once, and they are all columns if none is asked for. An additional argument for active networks, at
any place, leaves lines out of the report and changes nothing else.
-/
theorem network_flags_form_set :
    (∀ arguments : List String,
      ((∃ e, Query.parse arguments = .error e) ↔ ∃ a ∈ arguments, ¬ Flag.IsSpelling a) ∧
        ∀ before argument after, arguments = before ++ argument :: after →
          (∀ a ∈ before, Flag.IsSpelling a) → ¬ Flag.IsSpelling argument →
            Query.parse arguments = .error (.unknownNetworkArgument argument)) ∧
      (∀ arguments arguments' q q', Query.parse arguments = .ok q →
        Query.parse arguments' = .ok q' →
          (∀ f, Query.Asks arguments f ↔ Query.Asks arguments' f) →
            q = q' ∧ ∀ v, network v arguments = network v arguments') ∧
      (∀ arguments q, Query.parse arguments = .ok q → Query.Fits arguments q) ∧
      ∀ before after argument q, Query.parse (before ++ after) = .ok q →
        Flag.Spelled .active argument →
          ∀ v, LeavesOut (network v (before ++ after))
            (network v (before ++ argument :: after)) := by
  refine ⟨fun arguments => ⟨Query.exists_error_iff, ?_⟩, ?_, fun _ _ => Query.fits_of_parse, ?_⟩
  · intro before argument after harguments hbefore hargument
    exact Query.parse_eq_error_iff.mpr
      ⟨before, argument, after, harguments, hbefore, hargument, rfl⟩
  · intro arguments arguments' q q' h h' hsame
    obtain rfl := Query.parse_congr h h' hsame
    exact ⟨rfl, fun v => by rw [network, network, h, h']⟩
  · intro before after argument q h hactive v
    rw [network, network, h, Query.parse_active h hactive]
    cases directory v Layout.networkPath with
    | error e => exact rfl
    | ok networks => exact networkText_of_sublist (networkLines_active_sublist v.tree q networks)

/-- A fresh system whose ethernet has been switched off. -/
def switchedOff : Volume :=
  ((Volume.standard.write 21 "device:eth-0\nactive:false").toOption).getD Volume.standard

/-- Two ways to ask for names and addresses, and a report without the line of the ethernet. -/
theorem network_flags_form_set_of_addresses :
    Query.parse ["-V8", "-n"] = .ok ⟨false, [.name, .ipv8]⟩ ∧
      (∀ f, Query.Asks ["-V8", "-n"] f ↔ Query.Asks ["--name", "--Ipv8", "-N"] f) ∧
      network switchedOff ["-V8", "-n"] = network switchedOff ["--name", "--Ipv8", "-N"] ∧
      Query.Fits ["-V8", "-n"] ⟨false, [.name, .ipv8]⟩ ∧
      Flag.Spelled .active "--ACTIVE" ∧
      LeavesOut (network switchedOff ["-V8", "-n"])
        (network switchedOff ["-V8", "--ACTIVE", "-n"]) ∧
      network switchedOff ["-V8", "--ACTIVE", "-n"] ≠ network switchedOff ["-V8", "-n"] ∧
      Query.parse ["-n", "-K", "-x"] = .error (.unknownNetworkArgument "-K") := by
  obtain ⟨hrefused, hcongr, hfits, hactive⟩ := network_flags_form_set
  have hparse : Query.parse ["-V8", "-n"] = .ok ⟨false, [.name, .ipv8]⟩ := by decide +kernel
  have hparse' : Query.parse ["--name", "--Ipv8", "-N"] = .ok ⟨false, [.name, .ipv8]⟩ := by
    decide +kernel
  have hsame : ∀ f, Query.Asks ["-V8", "-n"] f ↔ Query.Asks ["--name", "--Ipv8", "-N"] f := by
    rintro (_ | _ | _ | _ | _) <;> decide +kernel
  have hspelled : Flag.Spelled .active "--ACTIVE" :=
    Flag.ofArgument?_eq_some_iff.mp (by decide +kernel)
  exact ⟨hparse, hsame, (hcongr _ _ _ _ hparse hparse' hsame).2 switchedOff, hfits _ _ hparse,
    hspelled, hactive ["-V8"] ["-n"] "--ACTIVE" _ hparse hspelled switchedOff, by decide +kernel,
    (hrefused _).2 ["-n"] "-K" ["-x"] rfl (by decide +kernel) (by decide +kernel)⟩

end TermShell.Report
