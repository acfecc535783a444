import TermShell.Proofs.Text.Blank
import TermShell.Proofs.Text.Split
import TermShell.Source

/-!
# What a script leaves out of a text

The same text can be run as a script or be typed. A script differs from what is typed in that
its lines are `prepared`: blanks at the end of a line are gone, and so are lines in which there is
nothing to do. It does not differ in where a line ends. The two ways of reading lines treat
carriage returns each in its own manner, but a carriage return is a blank, so nothing of this is
left in a prepared line (`scriptLines_eq`).

A reader is given a text or bytes. That makes no difference for the bytes that encode a text
(`ofBytes_encode`): no character but the line feed has the byte of the line feed in its encoding, so
bytes are cut where the text is cut, and no piece is refused.
-/

namespace TermShell.Source

/-! ## Lines in which there is nothing to do -/

/-- The line is blank, or a remark: its first character that is no blank is a `#`. -/
def Idle (line : String) : Prop :=
  (∀ c ∈ line.toList, Text.isBlank c = true) ∨
    ∃ blanks remark, line.toList = blanks ++ '#' :: remark ∧ ∀ c ∈ blanks, Text.isBlank c = true

theorem isCommandLine_iff {line : String} : isCommandLine line = true ↔ ¬ Idle line := by
  have hmark : ¬ Text.isBlank '#' = true := by decide
  unfold isCommandLine Text.trimStartChars
  split
  · rename_i hnil
    have hidle : Idle line := .inl (List.dropWhile_eq_nil_iff.mp hnil)
    simp [hidle]
  · rename_i c rest hcons
    rw [bne_iff_ne, not_iff_not]
    constructor
    · rintro rfl
      -- what has been dropped in front of the `#` are the blanks
      have hsplit := List.takeWhile_append_dropWhile (p := Text.isBlank) (l := line.toList)
      rw [hcons] at hsplit
      exact .inr ⟨_, rest, hsplit.symm, fun c hc => List.mem_takeWhile_imp hc⟩
    · rintro (hall | ⟨blanks, remark, hline, hblanks⟩)
      · rw [List.dropWhile_eq_nil_iff.mpr hall] at hcons
        exact absurd hcons (by simp)
      · rw [hline, List.dropWhile_append_of_pos hblanks, List.dropWhile_cons_of_neg hmark] at hcons
        exact (List.cons.inj hcons).1.symm

instance : DecidablePred Idle := fun line =>
  decidable_of_iff (¬ isCommandLine line = true) (by rw [isCommandLine_iff, not_not])

/-! ## What a script makes of lines -/

/-- There is something to do in the line, and it ends without a blank. -/
def Plain (line : String) : Prop := ¬ Idle line ∧ Text.trimEnd line = line

instance : DecidablePred Plain := fun _ => inferInstanceAs (Decidable (_ ∧ _))

/-- A line is plain if it begins with neither a blank nor a `#` and does not end with a blank. -/
theorem plain_of_ends {line : String} {first last : Char} {s : List Char}
    (hline : line.toList = first :: (s ++ [last])) (hfirst : Text.isBlank first = false)
    (hmark : first ≠ '#') (hlast : Text.isBlank last = false) : Plain line := by
  constructor
  · rw [← isCommandLine_iff, isCommandLine, hline, Text.trimStartChars,
      List.dropWhile_cons_of_neg (by simp [hfirst])]
    simpa using hmark
  · rw [← String.toList_inj, Text.trimEnd, String.toList_ofList, hline]
    exact List.rdropWhile_concat_neg Text.isBlank (first :: s) last (by simp [hlast])

/-- The lines that a script has of these: those in which there is something to do, without the
blanks at their ends. -/
def prepared (lines : List String) : List String :=
  (lines.map Text.trimEnd).filter fun line => ¬ Idle line

theorem mem_prepared {lines : List String} {line : String} (h : line ∈ prepared lines) :
    Plain line ∧ ∃ raw ∈ lines, Text.trimEnd raw = line := by
  obtain ⟨hmem, hidle⟩ := List.mem_filter.mp h
  obtain ⟨raw, hraw, rfl⟩ := List.mem_map.mp hmem
  exact ⟨⟨of_decide_eq_true hidle, Text.trimEnd_trimEnd raw⟩, raw, hraw, rfl⟩

theorem not_mem_of_mem_prepared {lines : List String} (h : ∀ line ∈ lines, '\n' ∉ line.toList) :
    ∀ line ∈ prepared lines, '\n' ∉ line.toList := by
  intro line hline hc
  obtain ⟨_, raw, hraw, rfl⟩ := mem_prepared hline
  exact h raw hraw (Text.mem_of_mem_trimEnd hc)

theorem prepared_append (lines lines' : List String) :
    prepared (lines ++ lines') = prepared lines ++ prepared lines' := by
  rw [prepared, List.map_append, List.filter_append, prepared, prepared]

theorem prepared_eq_self {lines : List String} (h : ∀ line ∈ lines, Plain line) :
    prepared lines = lines := by
  have htrimmed : lines.map Text.trimEnd = lines :=
    (List.map_congr_left fun line hline => (h line hline).2).trans lines.map_id
  rw [prepared, htrimmed, List.filter_eq_self]
  exact fun line hline => decide_eq_true (h line hline).1

/-! ## Two ways of reading lines -/

/-- The lines that a reader gives for a text. -/
def typed (text : String) : List String := (linesAndFailure (ofText text).readings).1

theorem linesAndFailure_map_line (lines : List String) :
    linesAndFailure (lines.map .line) = (lines, none) := by
  induction lines with
  | nil => rfl
  | cons line rest ih => simp [linesAndFailure, ih]

theorem typed_eq (text : String) :
    typed text = (chunks (text.toList.splitOn '\n')).map readerLine := by
  have hreadings : (ofText text).readings =
      ((chunks (text.toList.splitOn '\n')).map readerLine).map .line := by
    rw [List.map_map]
    rfl
  rw [typed, hreadings, linesAndFailure_map_line]

/-- A text is read without failure. -/
theorem readings_ofText (text : String) : (ofText text).readings = (typed text).map .line := by
  rw [typed_eq, List.map_map]
  rfl

theorem map_trimEndChars_linesOfPieces : ∀ pieces : List (List Char),
    (Text.linesOfPieces pieces).map Text.trimEndChars = (chunks pieces).map Text.trimEndChars
  | [] => rfl
  | [last] => rfl
  | piece :: next :: rest => by
    -- only a piece that another one follows loses a carriage return, and that is a blank
    rw [Text.linesOfPieces, chunks, List.map_cons, List.map_cons, Text.trimEndChars_dropReturn,
      map_trimEndChars_linesOfPieces (next :: rest)]

theorem trimEnd_readerLine (piece : List Char) :
    Text.trimEnd (readerLine piece) = String.ofList (Text.trimEndChars piece) := by
  rw [readerLine, Text.trimEnd_ofList, Text.trimEndChars_dropReturns]

/-- **The lines of a script are those of a reader, prepared.** -/
theorem scriptLines_eq (text : String) : scriptLines text = prepared (typed text) := by
  have htrimmed : (Text.lines text).map Text.trimEnd = (typed text).map Text.trimEnd := by
    have hpieces := map_trimEndChars_linesOfPieces (text.toList.splitOn '\n')
    have hstrings := congrArg (List.map String.ofList) hpieces
    simpa [typed_eq, trimEnd_readerLine, Text.lines, Text.linesChars, Text.trimEnd_ofList,
      Function.comp_def] using hstrings
  rw [scriptLines, htrimmed, prepared]
  refine List.filter_congr fun line _ => ?_
  rw [Bool.eq_iff_iff, isCommandLine_iff, decide_eq_true_iff]

/-- **A script has the prepared lines of its text**, and is refused if there are none. -/
theorem ofScript_eq (text : String) : ofScript text =
    if prepared (typed text) = [] then .error .emptyScript
    else .ok ⟨true, (prepared (typed text)).map .line⟩ := by
  unfold ofScript
  rw [scriptLines_eq]
  cases prepared (typed text) with
  | nil => rfl
  | cons line rest => rfl

theorem ofScript_eq_ok_iff {text : String} {source : Source} :
    ofScript text = .ok source ↔
      scriptLines text ≠ [] ∧ source = ⟨true, (scriptLines text).map .line⟩ := by
  unfold ofScript
  cases scriptLines text with
  | nil => simp
  | cons line rest => simp [eq_comm]

/-! ## A text and its bytes -/

/-- The bytes of some characters, in UTF-8. -/
def encode (cs : List Char) : List UInt8 := cs.flatMap String.utf8EncodeChar

theorem encode_append (cs cs' : List Char) : encode (cs ++ cs') = encode cs ++ encode cs' :=
  List.flatMap_append

/-- **No other character has the byte of the line feed.** -/
theorem eq_of_mem_utf8EncodeChar {c : Char} (h : 10 ∈ String.utf8EncodeChar c) : c = '\n' := by
  have hbyte : ∀ n : Nat, 10 = UInt8.ofNat n ↔ n % 256 = 10 := fun n => by
    rw [← UInt8.toNat_inj, eq_comm]
    rfl
  have hvalue : c.val.toNat = 10 := by
    unfold String.utf8EncodeChar at h
    dsimp only at h
    split at h
    · simp only [List.mem_singleton, hbyte] at h
      omega
    · -- there are several bytes, and each is at least 128
      exfalso
      split at h
      · simp only [List.mem_cons, List.not_mem_nil, hbyte, or_false] at h
        omega
      · split at h
        · simp only [List.mem_cons, List.not_mem_nil, hbyte, or_false] at h
          omega
        · simp only [List.mem_cons, List.not_mem_nil, hbyte, or_false] at h
          omega
  exact Char.ext (UInt32.toNat_inj.mp hvalue)

theorem not_mem_encode {cs : List Char} (h : '\n' ∉ cs) : 10 ∉ encode cs := by
  intro hmem
  obtain ⟨c, hc, hbyte⟩ := List.mem_flatMap.mp hmem
  exact h (eq_of_mem_utf8EncodeChar hbyte ▸ hc)

theorem encode_intercalate (pieces : List (List Char)) :
    encode (['\n'].intercalate pieces) = [10].intercalate (pieces.map encode) := by
  induction pieces with
  | nil => rfl
  | cons piece rest ih =>
    cases rest with
    | nil => simp
    | cons next more =>
      rw [List.intercalate_cons_cons, encode_append, encode_append, ih]
      exact List.intercalate_cons_cons.symm

/-- **Bytes are cut where the text is cut.** -/
theorem splitOn_encode (cs : List Char) :
    (encode cs).splitOn 10 = (cs.splitOn '\n').map encode := by
  have hpieces : ∀ bytes ∈ (cs.splitOn '\n').map encode, 10 ∉ bytes := by
    intro bytes hbytes
    obtain ⟨piece, hpiece, rfl⟩ := List.mem_map.mp hbytes
    exact not_mem_encode (Text.not_mem_of_mem_splitOn hpiece)
  have hne : (cs.splitOn '\n').map encode ≠ [] := by simp
  rw [← List.splitOn_intercalate 10 hpieces hne, ← encode_intercalate, List.intercalate_splitOn]

theorem encode_eq_nil_iff {cs : List Char} : encode cs = [] ↔ cs = [] := by
  cases cs with
  | nil => simp [encode]
  | cons c rest =>
    simp [encode]

theorem chunks_map_encode : ∀ pieces : List (List Char),
    chunks (pieces.map encode) = (chunks pieces).map encode
  | [] => rfl
  | [last] => by
    have hempty : (encode last).isEmpty = last.isEmpty := by
      rw [Bool.eq_iff_iff, List.isEmpty_iff, List.isEmpty_iff, encode_eq_nil_iff]
    rw [List.map_singleton, chunks, chunks, hempty]
    split <;> rfl
  | piece :: next :: rest => congrArg (encode piece :: ·) (chunks_map_encode (next :: rest))

/-- The bytes of characters are read as these characters. -/
theorem readBytes_encode (chunk : List Char) :
    readBytes (encode chunk) = .line (readerLine chunk) := by
  have hbytes : ByteArray.mk (encode chunk).toArray = (String.ofList chunk).toByteArray :=
    ByteArray.ext (by simp [String.toByteArray_ofList, List.utf8Encode, encode])
  have hread : String.fromUTF8? (String.ofList chunk).toByteArray = some (String.ofList chunk) := by
    rw [String.fromUTF8?, dif_pos (String.isValidUTF8 _)]
    rfl
  rw [readBytes, hbytes, hread]
  simp only [String.toList_ofList]

/-- **A reader gives the same for a text and for its bytes.** -/
theorem ofBytes_encode (text : String) : ofBytes text.toUTF8.data.toList = ofText text := by
  have hbytes : text.toUTF8.data.toList = encode text.toList := by
    have hofList : (String.ofList text.toList).toByteArray = text.toList.utf8Encode :=
      String.toByteArray_ofList
    rw [String.ofList_toList] at hofList
    rw [String.toUTF8_eq_toByteArray, hofList, List.utf8Encode, List.toList_data_toByteArray,
      encode]
  rw [ofBytes, hbytes, splitOn_encode, chunks_map_encode, List.map_map, ofText]
  simp only [Function.comp_def, readBytes_encode]

/-! ## Two texts as one -/

/-- A script has no use for the empty piece behind the last line feed, which a reader drops. -/
theorem prepared_chunks : ∀ pieces : List (List Char),
    prepared ((chunks pieces).map readerLine) = prepared (pieces.map readerLine)
  | [] => rfl
  | [[]] => by decide
  | [_ :: _] => rfl
  | piece :: next :: rest => by
    have hlater := prepared_chunks (next :: rest)
    have hsplit : ∀ lines, prepared (readerLine piece :: lines) =
        prepared [readerLine piece] ++ prepared lines := prepared_append [readerLine piece]
    rw [chunks, List.map_cons, List.map_cons, hsplit, hlater, ← hsplit]

/-- **Texts with a line feed between them have the lines of both.** -/
theorem scriptLines_append (text text' : String) :
    scriptLines (text ++ "\n" ++ text') = scriptLines text ++ scriptLines text' := by
  have hpieces : (text ++ "\n" ++ text').toList.splitOn '\n' =
      text.toList.splitOn '\n' ++ text'.toList.splitOn '\n' := by
    have hchars : (text ++ "\n" ++ text').toList = text.toList ++ '\n' :: text'.toList := by simp
    rw [hchars, List.splitOn_eq_splitOnP, List.splitOnP_append_cons _ _ (by simp),
      ← List.splitOn_eq_splitOnP, ← List.splitOn_eq_splitOnP]
  simp only [scriptLines_eq, typed_eq, prepared_chunks, hpieces, List.map_append, prepared_append]

/-- So two scripts make one, in which the readings of the second one follow those of the first. -/
theorem ofScript_append {text text' : String} {source source' : Source}
    (h : ofScript text = .ok source) (h' : ofScript text' = .ok source') :
    ofScript (text ++ "\n" ++ text') = .ok ⟨true, source.readings ++ source'.readings⟩ := by
  obtain ⟨hne, rfl⟩ := ofScript_eq_ok_iff.mp h
  obtain ⟨_, rfl⟩ := ofScript_eq_ok_iff.mp h'
  rw [ofScript_eq_ok_iff, scriptLines_append, List.map_append]
  exact ⟨List.append_ne_nil_of_left_ne_nil hne _, rfl⟩

/-! ## Texts made of lines -/

/-- The text that has these lines, each with a line feed at its end. -/
def textOf (lines : List String) : String := String.join (lines.map (· ++ "\n"))

theorem chunks_append_nil {α : Type} : ∀ pieces : List (List α), chunks (pieces ++ [[]]) = pieces
  | [] => rfl
  | [_] => rfl
  | p :: q :: ps => congrArg (p :: ·) (chunks_append_nil (q :: ps))

/-- Behind its last line feed the text is empty. -/
theorem splitOn_textOf {lines : List String} (h : ∀ line ∈ lines, '\n' ∉ line.toList) :
    (textOf lines).toList.splitOn '\n' = lines.map String.toList ++ [[]] := by
  induction lines with
  | nil => rfl
  | cons line rest ih =>
    have hchars : (textOf (line :: rest)).toList = line.toList ++ '\n' :: (textOf rest).toList := by
      simp [textOf]
    have hline : ∀ c ∈ line.toList, (c == '\n') = false := by
      intro c hc
      rw [beq_eq_false_iff_ne]
      rintro rfl
      exact h line List.mem_cons_self hc
    rw [hchars, List.splitOn_eq_splitOnP, List.splitOnP_append_cons_of_forall_mem hline _ (by simp),
      ← List.splitOn_eq_splitOnP, ih fun l hl => h l (List.mem_cons_of_mem _ hl)]
    rfl

/-- **A text made of lines is read as these lines.** -/
theorem typed_textOf {lines : List String} (h : ∀ line ∈ lines, '\n' ∉ line.toList) :
    typed (textOf lines) = lines.map fun line => readerLine line.toList := by
  rw [typed_eq, splitOn_textOf h, chunks_append_nil, List.map_map]
  rfl

/-- A script makes the same of these lines whether they are read from the text or given. -/
theorem prepared_typed_textOf {lines : List String} (h : ∀ line ∈ lines, '\n' ∉ line.toList) :
    prepared (typed (textOf lines)) = prepared lines := by
  have htrimmed : ∀ line : String, Text.trimEnd (readerLine line.toList) = Text.trimEnd line :=
    fun line => trimEnd_readerLine line.toList
  rw [typed_textOf h, prepared, List.map_map, prepared]
  simp only [Function.comp_def, htrimmed]

end TermShell.Source
