import ExprScan.Diagnostic
import ExprScan.Proofs.LineNumbers

/-! # Carets

  A diagnostic shows the line of an illegal character and a caret below it.
  The caret is found from an offset in bytes: the line is looked up, the
  indentation is cut off, and the characters up to the offset are counted.

  The cut is safe because an illegal character is never part of the
  indentation of its line (`exists_shows`). What is counted are then the
  characters that stand before it in the shown text (`Line.Shows.caretColumn_eq`),
  and the margins are as wide as the line number, so the bars of all lines
  stand in one column (`Diagnostic.aligned_ofIllegal`).
-/

namespace ExprScan

open Diagnostic

/-! ### Columns of printed lines -/

/-- The column of the first place of a mark in a printed line, counted in
    characters. -/
def columnOf? (mark : Char) (line : String) : Option Nat := line.toList.idxOf? mark

theorem columnOf?_eq {mark : Char} {line : String} {front behind : List Char}
    (hline : line.toList = front ++ mark :: behind) (hfirst : mark ∉ front) :
    columnOf? mark line = some front.length := by
  unfold columnOf?
  rw [hline, List.idxOf?_eq_some_iff]
  refine ⟨by simp, by simp, ?_⟩
  intro column hcolumn hmark
  rw [List.getElem_append_left hcolumn] at hmark
  exact hfirst (hmark ▸ List.getElem_mem hcolumn)

theorem toList_padded (fill : Char) (width : Nat) (mark : Char) :
    (padded fill width mark).toList = List.replicate (width - 1) fill ++ [mark] :=
  String.toList_ofList

theorem toList_marginOf (digits : Nat) :
    (marginOf digits).toList = List.replicate (digits + 1) ' ' ++ ['|'] :=
  toList_padded ' ' (digits + 2) '|'

/-- A number is written in digits only. -/
theorem isDigit_of_mem_toString {n : Nat} {c : Char} (h : c ∈ (toString n).toList) :
    c.isDigit = true := by
  rw [Nat.toString_eq_ofList_toDigits, String.toList_ofList] at h
  exact Nat.isDigit_of_mem_toDigits (by decide) (by decide) h

/-! ### A character in its line -/

/-- Where a character stands in its line: at the column of the line, behind
    the indentation and some more characters. -/
structure Line.Shows (line : Line) (indent before : List Char) (c : Char) : Prop where
  takeWhile_eq : line.text.takeWhile isIndent = indent
  exists_behind : ∃ behind, line.text.dropWhile isIndent = before ++ c :: behind
  column_eq : line.column = Text.byteLength indent + Text.byteLength before

/-- What pointing at a character of a line rests on: the indentation ends
    before the column, the line can be cut at both places, and the caret
    column is one more than the place that the character has behind the
    indentation. -/
structure Line.PointsAt (line : Line) (c : Char) (place : Nat) : Prop where
  indent_le : Text.byteLength (line.text.takeWhile isIndent) ≤ line.column
  dropBytes_indent : Text.dropBytes (Text.byteLength (line.text.takeWhile isIndent)) line.text
    = .ok (line.text.dropWhile isIndent)
  exists_dropBytes_column : ∃ behind, Text.dropBytes line.column line.text = .ok (c :: behind)
  caretColumn_eq : caretColumn line = .ok (place + 1)
  getElem?_eq : (line.text.dropWhile isIndent)[place]? = some c

/-- A caret counts the characters before the one that is shown. -/
theorem Line.Shows.pointsAt {line : Line} {indent before : List Char} {c : Char}
    (h : line.Shows indent before c) : line.PointsAt c before.length := by
  obtain ⟨behind, hshown⟩ := h.exists_behind
  have htext : line.text = indent ++ (before ++ c :: behind) := by
    rw [← h.takeWhile_eq, ← hshown, List.takeWhile_append_dropWhile]
  have hslice : Text.slice line.text (Text.byteLength indent) line.column = .ok before := by
    rw [htext, h.column_eq]
    exact Text.slice_byteLength_append indent before (c :: behind)
  refine ⟨?_, ?_, ⟨behind, ?_⟩, ?_, ?_⟩
  · rw [h.takeWhile_eq, h.column_eq]
    exact Nat.le_add_right _ _
  · rw [h.takeWhile_eq, hshown, htext]
    exact Text.dropBytes_byteLength_append _ _
  · rw [htext, h.column_eq, ← Text.byteLength_append, ← List.append_assoc]
    exact Text.dropBytes_byteLength_append _ _
  · unfold caretColumn
    rw [h.takeWhile_eq]
    simp only [hslice]
    rfl
  · rw [hshown]
    simp

/-- A character that is no indentation ends the indentation of its line. -/
theorem takeWhile_isIndent_append (front behind : List Char) {c : Char}
    (hc : isIndent c = false) :
    (front ++ c :: behind).takeWhile isIndent = front.takeWhile isIndent ∧
      (front ++ c :: behind).dropWhile isIndent = front.dropWhile isIndent ++ c :: behind := by
  induction front with
  | nil => simp [hc]
  | cons d front ih =>
    by_cases hd : isIndent d = true
    · simp [hd, ih]
    · simp [hd]

/-- A character that is no indentation is shown, wherever it stands in the line. -/
theorem Line.shows_of_not_isIndent {line : Line} {front behind : List Char} {c : Char}
    (htext : line.text = front ++ c :: behind) (hcolumn : line.column = Text.byteLength front)
    (hc : isIndent c = false) :
    line.Shows (front.takeWhile isIndent) (front.dropWhile isIndent) c := by
  obtain ⟨htake, hdrop⟩ := takeWhile_isIndent_append front behind hc
  refine ⟨?_, ⟨behind, ?_⟩, ?_⟩
  · rw [htext, htake]
  · rw [htext, hdrop]
  · rw [hcolumn, ← Text.byteLength_append, List.takeWhile_append_dropWhile]

/-- Indentation is made of separators. -/
theorem not_isIndent_of_not_isSeparator {c : Char} (h : isSeparator c = false) :
    isIndent c = false := by
  rw [Bool.eq_false_iff]
  intro hindent
  have hchars : c = ' ' ∨ c = '\t' := by simpa [isIndent] using hindent
  rcases hchars with rfl | rfl <;> exact absurd h (by decide)

/-- A reported character is looked up in the line that is around it. -/
theorem exists_locate_eq {source : String} {report : Illegal}
    (h : .illegal report ∈ itemsFrom .start source.toList) :
    ∃ before behind, source.toList = before ++ report.character :: behind ∧
      report.position.offset = Text.byteLength before ∧
      isSeparator report.character = false ∧
      Line.locate source report.position.offset
        = ⟨1 + before.count '\n', lastLine before ++ report.character :: firstLine behind,
            Text.byteLength (lastLine before)⟩ := by
  obtain ⟨before, behind, hsource, hposition, hseparator⟩ := exists_of_illegal_mem_itemsFrom h
  have hoffset : report.position.offset = Text.byteLength before := by
    rw [hposition, Position.offset_after_start]
  have hfound := Line.locate_eq hsource rfl 0 report.character.utf8Size_pos
  have hfeed : '\n' ∉ [report.character] := by
    intro hmem
    rw [← List.mem_singleton.mp hmem] at hseparator
    exact absurd hseparator (by decide)
  rw [Nat.add_zero, Nat.add_zero, List.singleton_append.symm, firstLine_append hfeed,
    List.singleton_append] at hfound
  rw [← hoffset] at hfound
  exact ⟨before, behind, hsource, hoffset, hseparator, hfound⟩

/-- A reported character is shown in the line where it is looked up. -/
theorem exists_shows {source : String} {report : Illegal}
    (h : .illegal report ∈ itemsFrom .start source.toList) :
    ∃ indent before,
      (Line.locate source report.position.offset).Shows indent before report.character := by
  obtain ⟨before, behind, -, -, hseparator, hfound⟩ := exists_locate_eq h
  rw [hfound]
  exact ⟨_, _, Line.shows_of_not_isIndent rfl rfl (not_isIndent_of_not_isSeparator hseparator)⟩

/-! ### The lines of a diagnostic -/

/-- The bars of a diagnostic stand in one column. Behind the bar and a blank
    stands the text, and at a place of that width the caret. -/
structure Diagnostic.LinesUp (diagnostic : Diagnostic) (caret : String) (bar : Nat)
    (shown : List Char) (place : Nat) : Prop where
  margin_bar : columnOf? '|' diagnostic.margin = some bar
  sourceLine_bar : columnOf? '|' diagnostic.sourceLine = some bar
  caretLine_bar : columnOf? '|' caret = some bar
  text_eq : diagnostic.sourceLine.toList.drop (bar + 2) = shown
  caret_column : columnOf? '^' caret = some (bar + 2 + place)

namespace Diagnostic

/-- A margin is as wide as a number, a blank and the bar. -/
theorem columnOf?_margin (digits : Nat) (behind : List Char) {line : String}
    (hline : line.toList = (marginOf digits).toList ++ behind) :
    columnOf? '|' line = some (digits + 1) := by
  rw [toList_marginOf, List.append_assoc] at hline
  have hfirst : '|' ∉ List.replicate (digits + 1) ' ' := by
    intro hmem
    exact absurd (List.eq_of_mem_replicate hmem) (by decide)
  rw [columnOf?_eq hline hfirst, List.length_replicate]

/-- The caret stands behind the margin, a blank and the dashes. -/
theorem columnOf?_caret (digits place : Nat) :
    columnOf? '^' (marginOf digits ++ " " ++ padded '-' (place + 1) '^')
      = some (digits + 1 + 2 + place) := by
  have hline : (marginOf digits ++ " " ++ padded '-' (place + 1) '^').toList
      = (List.replicate (digits + 1) ' ' ++ ['|', ' '] ++ List.replicate place '-')
          ++ '^' :: [] := by
    rw [String.toList_append, String.toList_append, toList_marginOf, toList_padded]
    simp
  have hfirst : '^' ∉ List.replicate (digits + 1) ' ' ++ ['|', ' ']
      ++ List.replicate place '-' := by
    simp
  rw [columnOf?_eq hline hfirst]
  simp only [List.length_append, List.length_replicate, List.length_cons, List.length_nil]

/-- The number of a source line has no bar, so the first bar is the one behind it. -/
theorem sourceLine_eq (n : Nat) (shown : List Char) :
    columnOf? '|' (toString n ++ " | " ++ String.ofList shown)
        = some ((toString n).length + 1) ∧
      (toString n ++ " | " ++ String.ofList shown).toList.drop ((toString n).length + 1 + 2)
        = shown := by
  have hline : (toString n ++ " | " ++ String.ofList shown).toList
      = ((toString n).toList ++ [' ']) ++ '|' :: (' ' :: shown) := by
    rw [String.toList_append, String.toList_append, String.toList_ofList (l := shown),
      List.append_assoc, List.append_assoc]
    rfl
  have hlength : ((toString n).toList ++ [' ']).length = (toString n).length + 1 := by
    rw [List.length_append, String.length_toList]
    rfl
  have hfirst : '|' ∉ (toString n).toList ++ [' '] := by
    intro hmem
    rcases List.mem_append.mp hmem with hmem | hmem
    · exact absurd (isDigit_of_mem_toString hmem) (by decide)
    · exact absurd (List.mem_singleton.mp hmem) (by decide)
  constructor
  · rw [columnOf?_eq hline hfirst, hlength]
  · rw [hline, ← hlength, List.drop_length_add_append]
    rfl

/-- A caret in the reach of padding is printed, and the lines of its
    diagnostic line up. -/
theorem exists_linesUp (name : String) {source : String} {report : Illegal} {line : Line}
    {place : Nat} (hline : Line.locate source report.position.offset = line)
    (hcolumn : caretColumn line = .ok (place + 1)) (hfits : place + 1 ≤ widestColumn) :
    ∃ caret, (ofIllegal name source report).caretLine = .ok caret ∧
      (ofIllegal name source report).LinesUp caret ((toString line.number).length + 1)
        (shownText line) place := by
  subst hline
  have hcaret : caretOf (Line.locate source report.position.offset)
      = .ok (padded '-' (place + 1) '^') := by
    unfold caretOf
    rw [hcolumn]
    exact if_pos hfits
  obtain ⟨hbar, hshown⟩ := sourceLine_eq (Line.locate source report.position.offset).number
    (shownText (Line.locate source report.position.offset))
  refine ⟨_, ?_, ?_, hbar, ?_, hshown, columnOf?_caret _ place⟩
  · show (do return _ ++ " " ++ (← caretOf _) : Except Fault String) = _
    rw [hcaret]
    rfl
  · exact columnOf?_margin _ [] (List.append_nil _).symm
  · apply columnOf?_margin
    rw [String.toList_append, String.toList_append, List.append_assoc]

end Diagnostic

/-- **Carets**: for each illegal character that a scan reports, pointing at it
    in the line where it is looked up goes well. If padding reaches the caret
    column, the diagnostic is printed with its caret line, and the lines line
    up, so that the caret stands below the character. -/
theorem caret_points_at_report (source : String)
    (hlines : source.toList.count '\n' ≤ 4294967294) :
    ∃ drained, (Lexer.ofSource source).drain = .ok drained ∧
      ∀ report, .illegal report ∈ drained.items →
        ∃ line place, Line.locate source report.position.offset = line ∧
          line.PointsAt report.character place ∧
          (place + 1 ≤ widestColumn → ∀ name, ∃ caret,
            (ofIllegal name source report).caretLine = .ok caret ∧
            (ofIllegal name source report).LinesUp caret ((toString line.number).length + 1)
              (Text.trimEnd (line.text.dropWhile isIndent)) place) := by
  obtain ⟨drained, hdrain, hitems⟩ := Lexer.exists_drain_ofSource hlines
  refine ⟨drained, hdrain, ?_⟩
  intro report hreport
  rw [hitems] at hreport
  obtain ⟨indent, before, hshows⟩ := exists_shows hreport
  have hpoints := hshows.pointsAt
  refine ⟨_, _, rfl, hpoints, ?_⟩
  intro hfits name
  exact exists_linesUp name rfl hpoints.caretColumn_eq hfits

/-- On the second line, behind a tab, a carriage return and `é`, the caret of
    `@` stands in the seventh column. -/
theorem caret_points_at_report_second_line :
    (String.ofList ['1', '\n', '\t', '\r', 'é', '@']).toList.count '\n' ≤ 4294967294 ∧
    ∃ drained,
      (Lexer.ofSource (String.ofList ['1', '\n', '\t', '\r', 'é', '@'])).drain = .ok drained ∧
      .illegal ⟨'@', 2, 6⟩ ∈ drained.items ∧ 2 + 1 ≤ widestColumn ∧
      ∃ line, Line.locate (String.ofList ['1', '\n', '\t', '\r', 'é', '@']) 6 = line ∧
        line.PointsAt '@' 2 ∧
        ∃ caret,
          (ofIllegal "sums.txt" (String.ofList ['1', '\n', '\t', '\r', 'é', '@'])
            ⟨'@', 2, 6⟩).caretLine = .ok caret ∧
          columnOf? '^' caret = some 6 := by
  have hlines : (String.ofList ['1', '\n', '\t', '\r', 'é', '@']).toList.count '\n'
      ≤ 4294967294 := by
    rw [String.toList_ofList]
    decide
  have hitems : itemsFrom .start ['1', '\n', '\t', '\r', 'é', '@']
      = [.token ⟨.integer, .integer 1, 1, 0, 1⟩, .illegal ⟨'é', 2, 4⟩, .illegal ⟨'@', 2, 6⟩] := by
    have hone : Piece.first? ['1', '\n', '\t', '\r', 'é', '@']
        = some ⟨.token .integer, ['1'], ['\n', '\t', '\r', 'é', '@']⟩ := rfl
    have hfeed : Piece.first? ['\n', '\t', '\r', 'é', '@']
        = some ⟨.lineBreaks, ['\n'], ['\t', '\r', 'é', '@']⟩ := rfl
    have hblank : Piece.first? ['\t', '\r', 'é', '@']
        = some ⟨.blank, ['\t', '\r'], ['é', '@']⟩ := rfl
    have hstray : Piece.first? ['é', '@'] = some ⟨.illegal 'é', ['é'], ['@']⟩ := rfl
    have hsign : Piece.first? ['@'] = some ⟨.illegal '@', ['@'], []⟩ := rfl
    rw [itemsFrom_of_first? hone, itemsFrom_of_first? hfeed, itemsFrom_of_first? hblank,
      itemsFrom_of_first? hstray, itemsFrom_of_first? hsign, itemsFrom_nil]
    rfl
  have hline : Line.locate (String.ofList ['1', '\n', '\t', '\r', 'é', '@']) 6
      = ⟨2, ['\t', '\r', 'é', '@'], 4⟩ := by
    have hfirst : '\n' ∉ ['1'] := by decide
    have hsecond : '\n' ∉ ['\t', '\r', 'é', '@'] := by decide
    rw [Line.locate, String.toList_ofList, ← List.singleton_append, Line.locateFrom_line hfirst,
      Line.locateFrom_single hsecond]
    rfl
  obtain ⟨drained, hdrain, hall⟩ :=
    caret_points_at_report (String.ofList ['1', '\n', '\t', '\r', 'é', '@']) hlines
  have hmem : .illegal ⟨'@', 2, 6⟩ ∈ drained.items := by
    rw [Lexer.items_eq_of_drain hdrain, String.toList_ofList, hitems]
    simp
  obtain ⟨line, place, rfl, hpoints, hcaret⟩ := hall _ hmem
  have hplace : place = 2 := by
    have hfound := hpoints.caretColumn_eq
    rw [hline] at hfound
    exact (Nat.succ.inj (Except.ok.inj hfound)).symm
  subst hplace
  have hfits : 2 + 1 ≤ widestColumn := by decide
  obtain ⟨caret, hprinted, hlinesUp⟩ := hcaret hfits "sums.txt"
  refine ⟨hlines, drained, hdrain, hmem, hfits, _, rfl, hpoints, caret, hprinted, ?_⟩
  have hstands := hlinesUp.caret_column
  rw [hline] at hstands
  exact hstands

end ExprScan
