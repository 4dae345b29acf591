import ExprScan.Proofs.Carets
import Mathlib.Data.List.DropRight

/-! # Trimmed lines

  A diagnostic shows a line without the white space at its end. The caret is
  counted on the line before it is trimmed, so the two agree only as long as
  trimming stops behind the reported character.

  What is reported is never one of the blanks that separate tokens, but white
  space has more characters than those. A reported character that is white
  space itself, with nothing but white space behind it on its line, is trimmed
  with the rest, and the caret then stands behind the end of the text. In all
  other cases the character stands above its caret (`getElem?_shownText`).
-/

namespace ExprScan

open Diagnostic

/-! ### Trimming the end of a text -/

namespace Text

/-- A text of white space only. -/
def AllWhite (text : List Char) : Prop := ∀ c ∈ text, isWhiteSpace c = true

instance (text : List Char) : Decidable (AllWhite text) :=
  decidable_of_iff (text.all isWhiteSpace = true) List.all_eq_true

variable {front tail behind : List Char} {c : Char}

theorem trimEnd_eq_nil_iff : trimEnd tail = [] ↔ AllWhite tail := List.rdropWhile_eq_nil_iff

/-- Trimming keeps a first part of a text. -/
theorem exists_trimEnd_append (text : List Char) : ∃ cut, trimEnd text ++ cut = text :=
  List.rdropWhile_prefix _ _

/-- Trimming goes on in front of a text only if nothing is left of the text. -/
theorem trimEnd_append (front tail : List Char) :
    trimEnd (front ++ tail)
      = if trimEnd tail = [] then trimEnd front else front ++ trimEnd tail := by
  unfold trimEnd
  rw [List.reverse_append, List.dropWhile_append]
  by_cases htail : tail.reverse.dropWhile isWhiteSpace = []
  · simp [htail]
  · simp [htail]

/-- Where white space only is left of a text from a character on, the character is trimmed. -/
theorem getElem?_trimEnd_of_allWhite (h : AllWhite (c :: behind)) :
    (trimEnd (front ++ c :: behind))[front.length]? = none := by
  obtain ⟨cut, hcut⟩ := exists_trimEnd_append front
  have hlength := congrArg List.length hcut
  rw [List.length_append] at hlength
  rw [trimEnd_append, if_pos (trimEnd_eq_nil_iff.mpr h)]
  exact List.getElem?_eq_none (by omega)

/-- Where anything else is left, the character stays in its place. -/
theorem getElem?_trimEnd_of_not_allWhite (h : ¬ AllWhite (c :: behind)) :
    (trimEnd (front ++ c :: behind))[front.length]? = some c := by
  have hkept : trimEnd (c :: behind) ≠ [] := fun hnil => h (trimEnd_eq_nil_iff.mp hnil)
  obtain ⟨d, more, hcons⟩ := List.exists_cons_of_ne_nil hkept
  -- What is kept is a first part of the text, so it starts with the same character.
  obtain ⟨cut, hcut⟩ := exists_trimEnd_append (c :: behind)
  rw [hcons, List.cons_append] at hcut
  obtain ⟨rfl, -⟩ := List.cons.inj hcut
  rw [trimEnd_append, if_neg hkept, hcons]
  simp

end Text

/-- The line feed at the end of a line is white space as well. -/
theorem allWhite_firstLine {c : Char} {text : List Char} :
    Text.AllWhite (c :: firstLine text) ↔ Text.AllWhite (c :: text.takeWhile (· != '\n')) := by
  have hfeed : Text.isWhiteSpace '\n' = true := by decide
  -- The first line keeps the line feed that ends it, and here it is left out.
  by_cases hmem : '\n' ∈ text
  · obtain ⟨line, rest, rfl, hline⟩ := List.eq_append_cons_of_mem hmem
    rw [firstLine_line hline, takeWhile_line hline]
    simp [Text.AllWhite, or_imp, forall_and, hfeed]
  · rw [firstLine_single hmem, takeWhile_single hmem]

/-! ### The place of the caret -/

/-- What is shown at the place of a character in its line: the character, unless it is trimmed. -/
theorem Line.getElem?_shownText {line : Line} {front behind : List Char} {c : Char}
    (htext : line.text = front ++ c :: behind) (hc : isIndent c = false) :
    (¬ Text.AllWhite (c :: behind) →
      (shownText line)[(front.dropWhile isIndent).length]? = some c) ∧
    (Text.AllWhite (c :: behind) →
      (shownText line)[(front.dropWhile isIndent).length]? = none) := by
  have hshown : shownText line = Text.trimEnd (front.dropWhile isIndent ++ c :: behind) := by
    unfold shownText
    rw [htext, (takeWhile_isIndent_append front behind hc).2]
  rw [hshown]
  exact ⟨Text.getElem?_trimEnd_of_not_allWhite, Text.getElem?_trimEnd_of_allWhite⟩

/-- A character of the source line stands where it has its place behind the bar. -/
theorem Diagnostic.LinesUp.getElem?_sourceLine {diagnostic : Diagnostic} {caret : String}
    {bar place : Nat} {shown : List Char} (h : diagnostic.LinesUp caret bar shown place) :
    diagnostic.sourceLine.toList[bar + 2 + place]? = shown[place]? := by
  rw [← h.text_eq, List.getElem?_drop]

/-- What is printed for a report: a caret, unless it is out of the reach of padding, and
    below the column of the caret the character at its place in the shown text. -/
theorem exists_column {source : String} {report : Illegal} {line : Line} {place : Nat}
    (hline : Line.locate source report.position.offset = line)
    (hcolumn : caretColumn line = .ok (place + 1)) (hfits : place + 1 ≤ widestColumn)
    (name : String) :
    ∃ caret column, (ofIllegal name source report).caretLine = .ok caret ∧
      columnOf? '^' caret = some column ∧
      (ofIllegal name source report).sourceLine.toList[column]? = (shownText line)[place]? := by
  obtain ⟨caret, hcaret, hlinesUp⟩ := exists_linesUp name hline hcolumn hfits
  exact ⟨caret, _, hcaret, hlinesUp.caret_column, hlinesUp.getElem?_sourceLine⟩

/-- **Trimmed lines**: each illegal character that a scan reports, also in a scan that is cut
    short, is shown at the place that its caret counts to if it or a character behind it on its
    line is no white space, and otherwise nothing is shown there. If padding reaches the caret
    column, so it is printed: the source line has the character in the column of `^`, or it
    ends before. -/
theorem reports_shown_unless_trailing (source : String) (given : List Item) (lexer : Lexer)
    (hreaches : Lexer.Reaches (.ofSource source) given lexer) (report : Illegal)
    (hreport : .illegal report ∈ given) :
    ∃ before behind line place,
      source.toList = before ++ report.character :: behind ∧
      Text.byteLength before = report.position.offset ∧
      Line.locate source report.position.offset = line ∧
      caretColumn line = .ok (place + 1) ∧
      (¬ Text.AllWhite (report.character :: behind.takeWhile (· != '\n')) →
        (shownText line)[place]? = some report.character) ∧
      (Text.AllWhite (report.character :: behind.takeWhile (· != '\n')) →
        (shownText line)[place]? = none) ∧
      (place + 1 ≤ widestColumn → ∀ name, ∃ caret column,
        (ofIllegal name source report).caretLine = .ok caret ∧
        columnOf? '^' caret = some column ∧
        (ofIllegal name source report).sourceLine.toList[column]? = (shownText line)[place]?) := by
  obtain ⟨before, behind, hsource, hoffset, hseparator, hfound⟩ :=
    exists_locate_eq (hreaches.mem_itemsFrom hreport)
  -- The blanks cut in front of a line are separators, and a reported character is none.
  have hindent := not_isIndent_of_not_isSeparator hseparator
  have htext : (Line.locate source report.position.offset).text
      = lastLine before ++ report.character :: firstLine behind := by rw [hfound]
  have hplace : (Line.locate source report.position.offset).column
      = Text.byteLength (lastLine before) := by rw [hfound]
  have hcolumn := (Line.shows_of_not_isIndent htext hplace hindent).pointsAt.caretColumn_eq
  obtain ⟨hkept, htrimmed⟩ := Line.getElem?_shownText htext hindent
  rw [allWhite_firstLine] at hkept htrimmed
  refine ⟨before, behind, _, _, hsource, hoffset.symm, rfl, hcolumn, hkept, htrimmed, ?_⟩
  intro hfits name
  exact exists_column rfl hcolumn hfits name

/-- Around `@`, a no-break space before it is shown and one behind it is not. -/
theorem reports_shown_unless_trailing_no_break_space :
    ∃ lexer, Lexer.Reaches (.ofSource (String.ofList ['\t', '\u00a0', '@', '\u00a0', '\n']))
        [.illegal ⟨'\u00a0', 1, 1⟩, .illegal ⟨'@', 1, 3⟩, .illegal ⟨'\u00a0', 1, 4⟩] lexer ∧
      (∃ line place,
        Line.locate (String.ofList ['\t', '\u00a0', '@', '\u00a0', '\n']) 1 = line ∧
        caretColumn line = .ok (place + 1) ∧ (shownText line)[place]? = some '\u00a0') ∧
      ∃ line place,
        Line.locate (String.ofList ['\t', '\u00a0', '@', '\u00a0', '\n']) 4 = line ∧
        caretColumn line = .ok (place + 1) ∧ (shownText line)[place]? = none := by
  have hlines : (String.ofList ['\t', '\u00a0', '@', '\u00a0', '\n']).toList.count '\n'
      ≤ 4294967294 := by
    rw [String.toList_ofList]
    decide
  have hitems : itemsFrom .start ['\t', '\u00a0', '@', '\u00a0', '\n']
      = [.illegal ⟨'\u00a0', 1, 1⟩, .illegal ⟨'@', 1, 3⟩, .illegal ⟨'\u00a0', 1, 4⟩] := by
    have htab : Piece.first? ['\t', '\u00a0', '@', '\u00a0', '\n']
        = some ⟨.blank, ['\t'], ['\u00a0', '@', '\u00a0', '\n']⟩ := rfl
    have hfirst : Piece.first? ['\u00a0', '@', '\u00a0', '\n']
        = some ⟨.illegal '\u00a0', ['\u00a0'], ['@', '\u00a0', '\n']⟩ := rfl
    have hsign : Piece.first? ['@', '\u00a0', '\n']
        = some ⟨.illegal '@', ['@'], ['\u00a0', '\n']⟩ := rfl
    have hsecond : Piece.first? ['\u00a0', '\n']
        = some ⟨.illegal '\u00a0', ['\u00a0'], ['\n']⟩ := rfl
    have hfeed : Piece.first? ['\n'] = some ⟨.lineBreaks, ['\n'], []⟩ := rfl
    rw [itemsFrom_of_first? htab, itemsFrom_of_first? hfirst, itemsFrom_of_first? hsign,
      itemsFrom_of_first? hsecond, itemsFrom_of_first? hfeed, itemsFrom_nil]
    rfl
  obtain ⟨drained, hdrain, hgiven⟩ := Lexer.exists_drain_ofSource hlines
  have hreaches := Lexer.Reaches.of_drain hdrain
  rw [hgiven, String.toList_ofList, hitems] at hreaches
  -- What stands behind a report is what is left of the source from its offset on.
  have hbehind : ∀ before rest behind, String.toList (String.ofList
      ['\t', '\u00a0', '@', '\u00a0', '\n']) = before ++ '\u00a0' :: behind →
      Text.dropBytes (Text.byteLength before) ['\t', '\u00a0', '@', '\u00a0', '\n']
        = .ok ('\u00a0' :: rest) → behind = rest := by
    intro before rest behind hsource hrest
    rw [String.toList_ofList] at hsource
    rw [hsource, Text.dropBytes_byteLength_append] at hrest
    exact (List.cons.inj (Except.ok.inj hrest)).2
  refine ⟨drained.lexer, hreaches, ?_, ?_⟩
  · obtain ⟨before, behind, line, place, hsource, hoffset, hline, hcolumn, hkept, -⟩ :=
      reports_shown_unless_trailing _ _ _ hreaches ⟨'\u00a0', 1, 1⟩ (by simp)
    obtain rfl := hbehind before ['@', '\u00a0', '\n'] behind hsource (by rw [hoffset]; rfl)
    exact ⟨line, place, hline, hcolumn, hkept (by decide)⟩
  · obtain ⟨before, behind, line, place, hsource, hoffset, hline, hcolumn, -, htrimmed, -⟩ :=
      reports_shown_unless_trailing _ _ _ hreaches ⟨'\u00a0', 1, 4⟩ (by simp)
    obtain rfl := hbehind before ['\n'] behind hsource (by rw [hoffset]; rfl)
    exact ⟨line, place, hline, hcolumn, htrimmed (by decide)⟩

/-- A no-break space at the end of `1` is trimmed, and its caret stands behind the text. -/
theorem trailing_report_not_shown :
    ¬ ∀ (source name : String) (drained : Lexer.Drained),
      (Lexer.ofSource source).drain = .ok drained →
      ∀ report, .illegal report ∈ drained.items →
        ∀ caret column, (ofIllegal name source report).caretLine = .ok caret →
          columnOf? '^' caret = some column →
          (ofIllegal name source report).sourceLine.toList[column]? = some report.character := by
  intro hshown
  have hlines : (String.ofList ['1', '\u00a0']).toList.count '\n' ≤ 4294967294 := by
    rw [String.toList_ofList]
    decide
  have hitems : itemsFrom .start ['1', '\u00a0']
      = [.token ⟨.integer, .integer 1, 1, 0, 1⟩, .illegal ⟨'\u00a0', 1, 1⟩] := by
    have hone : Piece.first? ['1', '\u00a0']
        = some ⟨.token .integer, ['1'], ['\u00a0']⟩ := rfl
    have hspace : Piece.first? ['\u00a0']
        = some ⟨.illegal '\u00a0', ['\u00a0'], []⟩ := rfl
    rw [itemsFrom_of_first? hone, itemsFrom_of_first? hspace, itemsFrom_nil]
    rfl
  have hline : Line.locate (String.ofList ['1', '\u00a0'])
      (Illegal.mk '\u00a0' ⟨1, 1⟩).position.offset = ⟨1, ['1', '\u00a0'], 1⟩ := by
    have hsingle : '\n' ∉ ['1', '\u00a0'] := by decide
    rw [Line.locate, String.toList_ofList, Line.locateFrom_single hsingle]
    rfl
  obtain ⟨drained, hdrain, hgiven⟩ := Lexer.exists_drain_ofSource hlines
  rw [String.toList_ofList, hitems] at hgiven
  have hplace : caretColumn ⟨1, ['1', '\u00a0'], 1⟩ = .ok (1 + 1) := rfl
  obtain ⟨caret, column, hcaret, hcolumn, hsourceLine⟩ :=
    exists_column hline hplace (by decide) "sums.txt"
  have hreported := hshown _ "sums.txt" drained hdrain ⟨'\u00a0', 1, 1⟩ (by simp [hgiven]) caret
    column hcaret hcolumn
  rw [hsourceLine] at hreported
  exact absurd hreported (by decide)

end ExprScan
