import SlotLang.Command.Folder
import SlotLang.Proofs.Scanning

/-!
# Where the caret stands

A report on a character that the scanner refuses shows the line of the character, without the blanks
at both of its ends, and below it an arrow that ends in a caret.  The column of the character counts
characters, but the arrow is made shorter by the size in bytes of the blanks that were dropped in
front.  So the caret stands below the character if each of these blanks has one byte, or if the
character is the first one shown.  Otherwise it stands too far to the left: by a column for each byte
in excess, as long as it stays below the line.
-/

namespace SlotLang

/-! ## A text around a refused character -/

/-- A text that is cut around a character of one of its lines, which is not blank.  The parts are the
lines above, the blanks at the start of the line, what stands in front of the character and behind
it, the blanks at the end of the line, and the rest, which starts with a line feed. -/
structure RefusedText where
  above : List Char
  indent : List Char
  lead : List Char
  refused : Char
  tail : List Char
  trail : List Char
  below : List Char
  aboveEnds : ∀ c ∈ above.getLast?, c = '\n'
  belowStarts : ∀ c ∈ below.head?, c = '\n'
  oneLine : '\n' ∉ indent ++ (lead ++ refused :: (tail ++ trail))
  indentBlank : ∀ c ∈ indent, Text.isBlank c = true
  trailBlank : ∀ c ∈ trail, Text.isBlank c = true
  leadSolid : ∀ c ∈ lead.head?, Text.isBlank c = false
  refusedSolid : Text.isBlank refused = false
  tailSolid : ∀ c ∈ tail.getLast?, Text.isBlank c = false

namespace RefusedText

def line (t : RefusedText) : List Char :=
  t.indent ++ (t.lead ++ t.refused :: (t.tail ++ t.trail))

def text (t : RefusedText) : List Char := t.above ++ (t.line ++ t.below)

def lineNumber (t : RefusedText) : Nat := t.above.count '\n' + 1

/-- The column of the character, counted in characters. -/
def column (t : RefusedText) : Nat := (t.indent ++ t.lead).length + 1

def fault (t : RefusedText) (file : String) : PlacedFault :=
  ⟨.unrecognised (String.singleton t.refused), ⟨t.lineNumber, t.column, file⟩⟩

/-- What stands in front of the line where it is shown. -/
def gutter (t : RefusedText) : List Char := (toString t.lineNumber).toList ++ [' ', '|', ' ']

/-- The line as it is shown, without the blanks at its ends. -/
def shown (t : RefusedText) : String :=
  String.ofList (t.gutter ++ (t.lead ++ t.refused :: t.tail))

/-- The place of the character in the line as it is shown. -/
def place (t : RefusedText) : Nat := (t.gutter ++ t.lead).length

/-- The bytes of the dropped blanks beyond one for each of them. -/
def excess (t : RefusedText) : Nat := Text.byteSize t.indent - t.indent.length

def arrowWidth (t : RefusedText) : Nat := max 1 (t.column - Text.byteSize t.indent)

/-- The line below, with an arrow that ends in the caret. -/
def caretLine (t : RefusedText) : String :=
  String.ofList (List.replicate (t.gutter.length - 2) ' ' ++
    '|' :: ' ' :: (List.replicate (t.arrowWidth - 1) '-' ++ ['^']))

/-- The lines of the report above the caret. -/
def heading (t : RefusedText) (o : Command.Options) : List String :=
  [ (t.fault o.sourceName).text,
    "Error: UnrecognisedToken",
    "-> " ++ o.input,
    String.ofList (List.replicate (t.gutter.length - 2) ' ' ++ ['|']),
    t.shown ]

end RefusedText

/-! ## Runs, lines and sizes -/

namespace Text

variable {inClass : Char → Bool} {s rest : List Char}

theorem takeWhile_exact (hs : ∀ c ∈ s, inClass c = true)
    (hrest : ∀ c ∈ rest.head?, inClass c = false) : (s ++ rest).takeWhile inClass = s := by
  rw [List.takeWhile_append_of_pos hs]
  cases rest with
  | nil => simp
  | cons c rest => simp [hrest c rfl]

theorem dropWhile_exact (hs : ∀ c ∈ s, inClass c = true)
    (hrest : ∀ c ∈ rest.head?, inClass c = false) : (s ++ rest).dropWhile inClass = rest := by
  rw [List.dropWhile_append_of_pos hs]
  cases rest with
  | nil => simp
  | cons c rest => simp [hrest c rfl]

/-- A text starts with a longest run of a class. -/
theorem exists_span (inClass : Char → Bool) (s : List Char) :
    ∃ run rest, run ++ rest = s ∧ (∀ c ∈ run, inClass c = true) ∧
      ∀ c ∈ rest.head?, inClass c = false := by
  refine ⟨s.takeWhile inClass, s.dropWhile inClass, List.takeWhile_append_dropWhile,
    List.all_eq_true.mp List.all_takeWhile, ?_⟩
  intro c hc
  have hstop := List.head?_dropWhile_not inClass s
  rw [Option.mem_def.mp hc] at hstop
  simpa using hstop

/-- A text ends with a longest run of a class. -/
theorem exists_span_back (inClass : Char → Bool) (s : List Char) :
    ∃ rest run, rest ++ run = s ∧ (∀ c ∈ run, inClass c = true) ∧
      ∀ c ∈ rest.getLast?, inClass c = false := by
  obtain ⟨run, rest, happend, hrun, hrest⟩ := exists_span inClass s.reverse
  refine ⟨rest.reverse, run.reverse, ?_, by simpa using hrun, by simpa using hrest⟩
  rw [← List.reverse_append, happend, List.reverse_reverse]

theorem dropTrailingBlanks_append (hrest : ∀ c ∈ rest, isBlank c = true)
    (hs : ∀ c ∈ s.getLast?, isBlank c = false) : dropTrailingBlanks (s ++ rest) = s := by
  have hdrop : (rest.reverse ++ s.reverse).dropWhile isBlank = s.reverse :=
    dropWhile_exact (by simpa using hrest) (by simpa using hs)
  rw [dropTrailingBlanks, List.reverse_append, hdrop, List.reverse_reverse]

theorem lineAt_succ_newline (n : Nat) (s : List Char) :
    lineAt (n + 1) ('\n' :: s) = lineAt n s := by
  simp [lineAt]

theorem lineAt_succ_cons {c : Char} (hc : c ≠ '\n') (n : Nat) (s : List Char) :
    lineAt (n + 1) (c :: s) = lineAt (n + 1) s := by
  simp [lineAt, hc]

theorem lineAt_append_newline (upper s : List Char) :
    lineAt (upper.count '\n' + 1) (upper ++ '\n' :: s) = lineAt 0 s := by
  induction upper with
  | nil => exact lineAt_succ_newline 0 s
  | cons c upper ih =>
    by_cases hc : c = '\n'
    · rw [hc, List.count_cons_self, List.cons_append, lineAt_succ_newline, ih]
    · rw [List.count_cons_of_ne hc, List.cons_append, lineAt_succ_cons hc, ih]

/-- Whole lines in front are counted away. -/
theorem lineAt_append {above : List Char} (h : ∀ c ∈ above.getLast?, c = '\n') (s : List Char) :
    lineAt (above.count '\n') (above ++ s) = lineAt 0 s := by
  cases hlast : above.getLast? with
  | none =>
    rw [List.getLast?_eq_none_iff.mp hlast]
    rfl
  | some last =>
    obtain ⟨upper, rfl⟩ := List.getLast?_eq_some_iff.mp hlast
    rw [h last hlast, List.append_assoc, List.count_append, List.count_singleton_self]
    exact lineAt_append_newline upper s

theorem length_le_byteSize (s : List Char) : s.length ≤ byteSize s := by
  induction s with
  | nil => simp
  | cons c s ih =>
    have hpos := c.utf8Size_pos
    simp only [List.length_cons, byteSize_cons]
    omega

theorem byteSize_eq_length_iff (s : List Char) :
    byteSize s = s.length ↔ ∀ c ∈ s, c.utf8Size = 1 := by
  induction s with
  | nil => simp
  | cons c s ih =>
    -- No part has fewer bytes than characters, so none may have more.
    have hpos := c.utf8Size_pos
    have hle := length_le_byteSize s
    rw [List.forall_mem_cons, ← ih, byteSize_cons, List.length_cons]
    omega

end Text

namespace RefusedText

/-! ## Every refusal cuts its text -/

/-- A character that is not blank stands in a line, and the line has its blanks at both ends. -/
theorem exists_cut (passed : List Char) {c : Char} (rest : List Char)
    (hc : Text.isBlank c = false) :
    ∃ t : RefusedText, t.above ++ (t.indent ++ t.lead) = passed ∧ t.refused = c ∧
      t.tail ++ t.trail ++ t.below = rest := by
  obtain ⟨above, before, rfl, hbefore, habove⟩ := Text.exists_span_back (· ≠ '\n') passed
  obtain ⟨behind, below, rfl, hbehind, hbelow⟩ := Text.exists_span (· ≠ '\n') rest
  -- A line feed is blank too, so the line has to be cut off before its blanks are.
  obtain ⟨indent, lead, rfl, hindent, hlead⟩ := Text.exists_span Text.isBlank before
  obtain ⟨tail, trail, rfl, htrail, htail⟩ := Text.exists_span_back Text.isBlank behind
  have hnewline : c ≠ '\n' := by
    rintro rfl
    exact absurd hc (by decide)
  have hline : '\n' ∉ indent ++ (lead ++ c :: (tail ++ trail)) := by
    intro hmem
    rw [← List.append_assoc, List.mem_append, List.mem_cons] at hmem
    rcases hmem with hmem | rfl | hmem
    · simpa using hbefore _ hmem
    · contradiction
    · simpa using hbehind _ hmem
  exact ⟨⟨above, indent, lead, c, tail, trail, below, by simpa using habove,
    by simpa using hbelow, hline, hindent, htrail, hlead, hc, htail⟩, rfl, rfl, rfl⟩

/-- The position that a scan counts is the line and the column of the character. -/
theorem counted_eq (t : RefusedText) (file : String) :
    Position.counted file (t.above ++ (t.indent ++ t.lead)) = ⟨t.lineNumber, t.column, file⟩ := by
  have hnone : '\n' ∉ t.indent ++ t.lead := by
    intro hmem
    apply t.oneLine
    rw [← List.append_assoc]
    exact List.mem_append_left _ hmem
  have hlines : (t.above ++ (t.indent ++ t.lead)).count '\n' = t.above.count '\n' := by
    rw [List.count_append, List.count_eq_zero.mpr hnone, Nat.add_zero]
  have hcolumn : (t.above ++ (t.indent ++ t.lead)).reverse.takeWhile (· ≠ '\n') =
      (t.indent ++ t.lead).reverse := by
    -- Going back from the character, the count stops at the end of the lines above.
    rw [List.reverse_append]
    refine Text.takeWhile_exact ?_ ?_
    · intro c hc
      simpa using ne_of_mem_of_not_mem (List.mem_reverse.mp hc) hnone
    · simpa using t.aboveEnds
  rw [Position.counted, hlines, hcolumn, List.length_reverse]
  rfl

/-! ## What is shown -/

theorem lineAt_text (t : RefusedText) : Text.lineAt (t.lineNumber - 1) t.text = t.line := by
  have hline : ∀ c ∈ t.line, decide (c ≠ '\n') = true := by
    intro c hc
    simpa using ne_of_mem_of_not_mem hc t.oneLine
  have hbelow : ∀ c ∈ t.below.head?, decide (c ≠ '\n') = false := by simpa using t.belowStarts
  rw [lineNumber, Nat.add_sub_cancel, text, Text.lineAt_append t.aboveEnds]
  exact Text.takeWhile_exact hline hbelow

theorem head_solid (t : RefusedText) :
    ∀ c ∈ (t.lead ++ t.refused :: (t.tail ++ t.trail)).head?, Text.isBlank c = false := by
  intro c hc
  cases hlead : t.lead with
  | nil =>
    rw [hlead] at hc
    cases hc
    exact t.refusedSolid
  | cons d lead =>
    rw [hlead] at hc
    exact t.leadSolid c (by rwa [hlead])

theorem last_solid (t : RefusedText) :
    ∀ c ∈ (t.lead ++ t.refused :: t.tail).getLast?, Text.isBlank c = false := by
  intro c hc
  rw [List.getLast?_append_cons, List.getLast?_cons] at hc
  cases hlast : t.tail.getLast? with
  | none =>
    rw [hlast] at hc
    cases hc
    exact t.refusedSolid
  | some d =>
    rw [hlast] at hc
    cases hc
    exact t.tailSolid d hlast

theorem dropBlanks_line (t : RefusedText) :
    Text.dropTrailingBlanks (Text.dropLeadingBlanks t.line) = t.lead ++ t.refused :: t.tail := by
  have hleading : Text.dropLeadingBlanks t.line =
      (t.lead ++ t.refused :: t.tail) ++ t.trail := by
    rw [List.append_assoc]
    exact Text.dropWhile_exact t.indentBlank t.head_solid
  rw [hleading, Text.dropTrailingBlanks_append t.trailBlank t.last_solid]

theorem leadingBlankBytes_line (t : RefusedText) :
    Text.leadingBlankBytes t.line = Text.byteSize t.indent :=
  congrArg Text.byteSize (Text.takeWhile_exact t.indentBlank t.head_solid)

theorem length_gutter (t : RefusedText) :
    t.gutter.length = (toString t.lineNumber).length + 3 := by
  rw [gutter, List.length_append, String.length_toList]
  rfl

theorem margin_fault (t : RefusedText) (file : String) :
    (t.fault file).margin =
      String.ofList (List.replicate (t.gutter.length - 2) ' ' ++ ['|']) := by
  have hwidth : (toString t.lineNumber).length + 2 - "|".length = t.gutter.length - 2 := by
    rw [length_gutter]
    rfl
  have hmargin : (t.fault file).margin = String.ofList
      (List.replicate ((toString t.lineNumber).length + 2 - "|".length) ' ') ++ "|" := rfl
  rw [hmargin, hwidth, String.ofList_append]

theorem shown_eq (t : RefusedText) : t.shown =
    toString t.lineNumber ++ " | " ++ String.ofList (t.lead ++ t.refused :: t.tail) := by
  rw [shown, gutter, String.ofList_append, String.ofList_append, String.ofList_toList]

theorem caretLine_eq (t : RefusedText) (file : String) :
    t.caretLine = (t.fault file).margin ++ " " ++ Text.padLeft '-' t.arrowWidth "^" := by
  have hpad : Text.padLeft '-' t.arrowWidth "^" =
      String.ofList (List.replicate (t.arrowWidth - 1) '-') ++ "^" := rfl
  have hcaret : t.caretLine.toList = ((t.fault file).margin ++ " " ++
      Text.padLeft '-' t.arrowWidth "^").toList := by
    simp [caretLine, margin_fault, hpad]
  exact String.toList_inj.mp hcaret

/-- The whole report.  An arrow beyond the limit is not drawn, and the command breaks off. -/
theorem perform_showFault {t : RefusedText} {o : Command.Options} {source : String}
    (h : t.text = source.toList) (f : Command.Folder) :
    (Command.showFault o source (t.fault o.sourceName)).perform f [] =
      if t.arrowWidth ≤ PlacedFault.markLimit then ⟨1, t.heading o ++ [t.caretLine], f⟩
      else ⟨Command.brokenOff, t.heading o, f⟩ := by
  have hline : (t.fault o.sourceName).faultyLine source = t.line := by
    rw [← t.lineAt_text, h]
    rfl
  have hwidth : (t.fault o.sourceName).markWidth t.line = t.arrowWidth := by
    rw [PlacedFault.markWidth, leadingBlankBytes_line]
    rfl
  have hexcerpt : (t.fault o.sourceName).excerpt source o.input = t.heading o := by
    rw [PlacedFault.excerpt, hline, dropBlanks_line, margin_fault, heading, shown_eq]
    rfl
  have hmark : (t.fault o.sourceName).markLine? source =
      if t.arrowWidth ≤ PlacedFault.markLimit then some t.caretLine else none := by
    simp only [PlacedFault.markLine?, hline, hwidth, caretLine_eq t o.sourceName]
  rw [Command.showFault, hexcerpt, hmark]
  by_cases hlimit : t.arrowWidth ≤ PlacedFault.markLimit <;>
    simp [hlimit, Command.printLines, heading, Command.Action.perform]

/-! ## Columns -/

theorem shown_place (t : RefusedText) : t.shown.toList[t.place]? = some t.refused := by
  have happend : t.shown.toList = (t.gutter ++ t.lead) ++ t.refused :: t.tail := by simp [shown]
  rw [happend, place, List.getElem?_append_right (Nat.le_refl _)]
  simp

theorem idxOf_caretLine (t : RefusedText) :
    t.caretLine.toList.idxOf '^' = t.gutter.length + (t.arrowWidth - 1) := by
  have hlength := t.length_gutter
  simp only [caretLine, String.toList_ofList]
  simp [List.idxOf_append]
  omega

theorem byteSize_indent (t : RefusedText) :
    Text.byteSize t.indent = t.indent.length + t.excess :=
  (Nat.add_sub_cancel' (Text.length_le_byteSize t.indent)).symm

theorem excess_eq_zero_iff (t : RefusedText) :
    t.excess = 0 ↔ ∀ c ∈ t.indent, c.utf8Size = 1 := by
  rw [← Text.byteSize_eq_length_iff, byteSize_indent]
  omega

theorem arrowWidth_eq (t : RefusedText) : t.arrowWidth = t.lead.length - t.excess + 1 := by
  rw [arrowWidth, column, byteSize_indent, List.length_append]
  omega

/-- The caret stands to the left of the character by the bytes in excess, but not in front of the
line. -/
theorem idxOf_caretLine_add (t : RefusedText) :
    t.caretLine.toList.idxOf '^' + min t.lead.length t.excess = t.place := by
  rw [idxOf_caretLine, arrowWidth_eq, place, List.length_append]
  omega

theorem caret_below_iff (t : RefusedText) : t.caretLine.toList.idxOf '^' = t.place ↔
    (∀ c ∈ t.indent, c.utf8Size = 1) ∨ t.lead = [] := by
  have hplace := t.idxOf_caretLine_add
  rw [← excess_eq_zero_iff, ← List.length_eq_zero_iff]
  omega

theorem arrowWidth_eq_iff (t : RefusedText) : t.arrowWidth = t.column - t.indent.length ↔
    (∀ c ∈ t.indent, c.utf8Size = 1) ∨ t.lead = [] := by
  rw [← excess_eq_zero_iff, ← List.length_eq_zero_iff, arrowWidth_eq, column, List.length_append]
  omega

end RefusedText

/-- Whatever text the scanner refuses, the report shows the line of the refused character without the
blanks at its ends.  The caret stands below the character, and the arrow is as wide as the column less
the number of dropped blanks, if and only if each blank in front has one byte or the character is the
first one shown.  Otherwise the caret is too far to the left, by the bytes in excess or up to the
start of the line. -/
theorem caret_below_refused_iff {o : Command.Options} {source : String} {e : PlacedFault}
    (h : scan source o.sourceName = .error e) (f : Command.Folder) :
    ∃ t : RefusedText, t.text = source.toList ∧
      (∀ rule ∈ LexemeRule.ordered,
        rule.split (t.refused :: (t.tail ++ t.trail ++ t.below)) = none) ∧
      e = t.fault o.sourceName ∧
      ((Command.showFault o source e).perform f [] =
        if t.arrowWidth ≤ PlacedFault.markLimit then ⟨1, t.heading o ++ [t.caretLine], f⟩
        else ⟨Command.brokenOff, t.heading o, f⟩) ∧
      t.shown.toList[t.place]? = some t.refused ∧
      t.caretLine.toList.idxOf '^' + min t.lead.length t.excess = t.place ∧
      (t.caretLine.toList.idxOf '^' = t.place ↔
        (∀ c ∈ t.indent, c.utf8Size = 1) ∨ t.lead = []) ∧
      (t.arrowWidth = t.column - t.indent.length ↔
        (∀ c ∈ t.indent, c.utf8Size = 1) ∨ t.lead = []) := by
  obtain ⟨passed, c, rest, found, hsource, -, hnone, rfl⟩ := cut_of_scan_error h
  have hblank : Text.isBlank c = false := by
    simpa [LexemeRule.split, LexemeRule.splitRun] using hnone .blanks (by decide)
  obtain ⟨t, rfl, rfl, rfl⟩ := RefusedText.exists_cut passed rest hblank
  have htext : t.text = source.toList := by
    rw [hsource, RefusedText.text, RefusedText.line]
    simp
  refine ⟨t, htext, hnone, ?_, ?_, t.shown_place, t.idxOf_caretLine_add, t.caret_below_iff,
    t.arrowWidth_eq_iff⟩
  · rw [t.counted_eq]
    rfl
  · rw [t.counted_eq]
    exact t.perform_showFault htext f

/-- A line that starts with three blanks of two bytes each. -/
def wideIndent : String := "\u00a0\u00a0\u00a0x #"

def wideIndentOptions : Command.Options := ⟨"bad.tas", none, 2⟩

def wideIndentFault : PlacedFault := ⟨.unrecognised "#", ⟨1, 6, "bad.tas"⟩⟩

/-- The caret stands below the letter, two columns to the left of the refused character. -/
theorem caret_below_refused_iff_wideIndent :
    scan wideIndent wideIndentOptions.sourceName = .error wideIndentFault ∧
    ∃ t : RefusedText, t.text = wideIndent.toList ∧
      wideIndentFault = t.fault wideIndentOptions.sourceName ∧
      t.shown = "1 | x #" ∧ t.caretLine = "  | ^" ∧ t.place = 6 ∧
      min t.lead.length t.excess = 2 := by
  have hscan : scan wideIndent wideIndentOptions.sourceName = .error wideIndentFault := by
    decide +kernel
  obtain ⟨t, htext, -, hfault, hreport, hshown, hcaret, -⟩ := caret_below_refused_iff hscan ⟨[]⟩
  have hlines : ((Command.showFault wideIndentOptions wideIndent wideIndentFault).perform
      ⟨[]⟩ []).output.drop 4 = ["1 | x #", "  | ^"] := by decide +kernel
  have hends : t.shown = "1 | x #" ∧ t.caretLine = "  | ^" := by
    rw [hreport] at hlines
    split at hlines
    · simpa [RefusedText.heading] using hlines
    · simp [RefusedText.heading] at hlines
  have hrefused : String.singleton t.refused = "#" :=
    (Fault.unrecognised.inj (congrArg PlacedFault.fault hfault)).symm
  have hplace : t.place = 6 := by
    have honly : ∀ i < 7, "1 | x #".toList[i]?.map String.singleton = some "#" → i = 6 := by decide
    rw [hends.1] at hshown
    have hbound : t.place < 7 := (List.getElem?_eq_some_iff.mp hshown).1
    exact honly t.place hbound (by rw [hshown, Option.map_some, hrefused])
  have hindex : t.caretLine.toList.idxOf '^' = 4 := by
    rw [hends.2]
    decide
  exact ⟨hscan, t, htext, hfault, hends.1, hends.2, hplace, by omega⟩

end SlotLang
