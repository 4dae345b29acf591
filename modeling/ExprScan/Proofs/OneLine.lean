import ExprScan.Command
import ExprScan.Elapsed
import ExprScan.Proofs.Carets

/-! # Printed lines

  The command prints line by line, so nothing that it prints may hold a line
  feed itself. Most of what it prints is put together from digits and fixed
  words. A source gets into the output at two places only, and both keep line
  feeds out: the text of a comment is quoted, and a line feed is quoted by its
  letter (`lineFeed_notMem_escape`); the line that a diagnostic shows has a
  line feed at its end at most, and that is trimmed (`lineFeed_notMem_shownText`).
-/

namespace ExprScan

/-- A text without a line feed. -/
def OneLine (line : String) : Prop := '\n' ∉ line.toList

instance (line : String) : Decidable (OneLine line) := inferInstanceAs (Decidable (¬ _))

theorem OneLine.ofList {text : List Char} (h : '\n' ∉ text) : OneLine (String.ofList text) := by
  unfold OneLine
  rwa [String.toList_ofList]

theorem OneLine.append {first second : String} (hfirst : OneLine first)
    (hsecond : OneLine second) : OneLine (first ++ second) := by
  unfold OneLine at *
  rw [String.toList_append, List.mem_append]
  exact not_or.mpr ⟨hfirst, hsecond⟩

/-! ### Numbers -/

theorem lineFeed_notMem_toDigits {base : Nat} (hbase : 1 < base) (n : Nat) :
    '\n' ∉ Nat.toDigits base n := by
  have hdigit : ∀ d, '\n' ≠ Nat.digitChar d := by
    intro d h
    exact Nat.digitChar_ne '\n' rfl h.symm
  -- By the number: the digits ahead of the last one are those of a smaller number.
  induction n using Nat.strongRecOn with
  | _ n ih =>
    rw [Nat.toDigits_eq_if hbase]
    split
    · simp [hdigit]
    · next hn =>
      have hmore := ih (n / base) (Nat.div_lt_self (by omega) hbase)
      simp [hmore, hdigit]

theorem oneLine_toString (n : Nat) : OneLine (toString n) := by
  rw [Nat.toString_eq_ofList_toDigits]
  exact OneLine.ofList (lineFeed_notMem_toDigits (by decide) n)

theorem oneLine_toString_int (n : Int) : OneLine (toString n) := by
  rw [Int.toString_eq_repr, Int.repr_eq_if]
  split
  · exact oneLine_toString n.toNat
  · exact OneLine.append (by decide) (oneLine_toString (-n).toNat)

theorem lineFeed_notMem_positional {digits : List Char} (h : '\n' ∉ digits) (before : Int) :
    '\n' ∉ positional digits before := by
  unfold positional
  split
  · simp [h]
  · split
    · have htake : '\n' ∉ digits.take before.toNat := fun hmem => h (List.mem_of_mem_take hmem)
      have hdrop : '\n' ∉ digits.drop before.toNat := fun hmem => h (List.mem_of_mem_drop hmem)
      simp [htake, hdrop]
    · simp [h]

theorem lineFeed_notMem_scientific {digits : List Char} (h : '\n' ∉ digits) (power : Int) :
    '\n' ∉ scientific digits power := by
  have hpower : '\n' ∉ 'e' :: (toString power).toList := by
    rw [List.mem_cons]
    exact not_or.mpr ⟨by decide, oneLine_toString_int power⟩
  unfold scientific
  rw [List.mem_append]
  refine not_or.mpr ⟨?_, hpower⟩
  split
  · simpa using h
  · exact h

theorem Decimal.lineFeed_notMem_layout (d : Decimal) : '\n' ∉ d.layout := by
  have hdigits : '\n' ∉ Nat.toDigits 10 d.digits := lineFeed_notMem_toDigits (by decide) _
  unfold layout
  simp only
  split
  · exact lineFeed_notMem_positional hdigits _
  · exact lineFeed_notMem_scientific hdigits _

theorem Binary64.oneLine_text (x : Binary64) : OneLine x.text := by
  have hsign : OneLine (if x.isNegative then "-" else "") := by split <;> decide
  unfold text
  simp only
  split
  · decide
  · split
    · exact hsign.append (by decide)
    · split
      · exact hsign.append (by decide)
      · exact hsign.append (OneLine.ofList (Decimal.lineFeed_notMem_layout _))

/-! ### Tokens -/

theorem escapeLetter?_ne_lineFeed {c letter : Char} (h : Text.escapeLetter? c = some letter) :
    letter ≠ '\n' := by
  unfold Text.escapeLetter? at h
  split_ifs at h <;> exact (Option.some.inj h) ▸ by decide

/-- A line feed is quoted by a letter, and nothing else is quoted by one. -/
theorem lineFeed_notMem_escape (quote c : Char) : '\n' ∉ Text.escape quote c := by
  unfold Text.escape
  split
  · next letter hletter =>
    simp [(escapeLetter?_ne_lineFeed hletter).symm]
  · next hnone =>
    have hc : '\n' ≠ c := by
      rintro rfl
      exact absurd hnone (by decide)
    split
    · simp [hc]
    · split
      · unfold Text.codePoint
        simp [lineFeed_notMem_toDigits]
      · simp [hc]

theorem oneLine_quoted (text : String) : OneLine (Text.quoted text) := by
  apply OneLine.ofList
  simp [lineFeed_notMem_escape]

theorem Kind.oneLine_name (k : Kind) : OneLine k.name := by
  cases k with
  | symbol s => cases s <;> decide
  | integer => decide
  | float => decide
  | comment => decide

theorem Value.oneLine_display (v : Value) : OneLine v.display := by
  cases v with
  | absent => decide
  | integer n => exact oneLine_toString_int n.toInt
  | bigInteger n => exact oneLine_toString_int n
  | float x => exact x.oneLine_text
  | text s => exact oneLine_quoted s

/-- A token is shown on one line, whatever its text holds. -/
theorem Token.oneLine_display (t : Token) : OneLine t.display := by
  have hvalue : OneLine (Text.wrapped t.kind.name t.value.display) :=
    ((t.kind.oneLine_name.append (by decide)).append t.value.oneLine_display).append (by decide)
  unfold display
  refine ((OneLine.append ?_ (by decide)).append (oneLine_toString _)).append (by decide)
  split
  · exact t.kind.oneLine_name
  · exact hvalue

/-! ### Diagnostics -/

/-- The text of a line has a line feed at its end at most. -/
theorem Line.exists_text_locateFrom (number : Nat) (text : List Char) (offset : Nat) :
    ∃ body, '\n' ∉ body ∧ ((locateFrom number text offset).text = body ∨
      (locateFrom number text offset).text = body ++ ['\n']) := by
  induction text using line_induction generalizing number offset with
  | single line hline =>
    rw [locateFrom_single hline]
    exact ⟨line, hline, .inl rfl⟩
  | before line text hline ih =>
    rw [locateFrom_line hline]
    split
    · exact ⟨line, hline, .inr rfl⟩
    · exact ih _ _

theorem mem_of_mem_trimEnd {text : List Char} {c : Char} (h : c ∈ Text.trimEnd text) :
    c ∈ text := by
  unfold Text.trimEnd at h
  rw [List.mem_reverse] at h
  exact List.mem_reverse.mp ((List.dropWhile_suffix _).subset h)

theorem trimEnd_append_lineFeed (text : List Char) :
    Text.trimEnd (text ++ ['\n']) = Text.trimEnd text := by
  have hwhite : Text.isWhiteSpace '\n' = true := by decide
  unfold Text.trimEnd
  rw [List.reverse_append, List.reverse_singleton, List.singleton_append,
    List.dropWhile_cons_of_pos hwhite]

namespace Diagnostic

/-- What is shown of a line has no line feed. -/
theorem lineFeed_notMem_shownText (source : String) (offset : Nat) :
    '\n' ∉ shownText (Line.locate source offset) := by
  obtain ⟨body, hbody, htext⟩ := Line.exists_text_locateFrom 1 source.toList offset
  have hkept : '\n' ∉ Text.trimEnd (body.dropWhile isIndent) := by
    intro hmem
    exact hbody ((List.dropWhile_suffix _).subset (mem_of_mem_trimEnd hmem))
  unfold shownText Line.locate
  rcases htext with htext | htext
  · rwa [htext]
  · rwa [htext, (takeWhile_isIndent_append body [] (by decide)).2, trimEnd_append_lineFeed]

theorem oneLine_of_tip? {report : Illegal} {tip : String} (h : report.tip? = some tip) :
    OneLine tip := by
  unfold Illegal.tip? at h
  split_ifs at h <;> exact Option.some.inj h ▸ by decide

theorem oneLine_headingOf (report : Illegal) : OneLine (headingOf report) := by
  have hname : OneLine ("Error: " ++ Illegal.name) := OneLine.append (by decide) (by decide)
  unfold headingOf
  split
  · exact hname
  · next tip htip =>
    exact ((hname.append (by decide)).append (oneLine_of_tip? htip)).append (by decide)

theorem oneLine_padded {fill mark : Char} (hfill : fill ≠ '\n') (hmark : mark ≠ '\n')
    (width : Nat) : OneLine (padded fill width mark) := by
  apply OneLine.ofList
  simp [hfill.symm, hmark.symm]

theorem oneLine_marginOf (digits : Nat) : OneLine (marginOf digits) :=
  oneLine_padded (by decide) (by decide) _

variable {name source : String} {report : Illegal}

theorem oneLine_of_mem_opening (hname : OneLine name) {line : String}
    (h : line ∈ (ofIllegal name source report).opening) : OneLine line := by
  simp only [opening, List.mem_cons, List.not_mem_nil, or_false] at h
  rcases h with rfl | rfl | rfl | rfl
  · exact oneLine_headingOf report
  · exact OneLine.append (by decide) hname
  · exact oneLine_marginOf _
  · exact ((oneLine_toString _).append (by decide)).append
      (OneLine.ofList (lineFeed_notMem_shownText _ _))

theorem oneLine_of_caretLine {caret : String}
    (h : (ofIllegal name source report).caretLine = .ok caret) : OneLine caret := by
  obtain ⟨carets, hcarets, hline⟩ := exists_of_bind_eq_ok h
  obtain rfl := Except.ok.inj hline
  obtain ⟨column, -, hpadded⟩ := exists_of_bind_eq_ok hcarets
  refine ((oneLine_marginOf _).append (by decide)).append ?_
  split at hpadded
  · obtain rfl := Except.ok.inj hpadded
    exact oneLine_padded (by decide) (by decide) column
  · exact nomatch hpadded

end Diagnostic

/-! ### The closing line -/

theorem oneLine_withPoint (count places : Nat) : OneLine (withPoint count places) := by
  unfold withPoint
  simp only
  split
  · exact oneLine_toString _
  · refine ((oneLine_toString _).append (by decide)).append (OneLine.ofList ?_)
    intro hmem
    have hdigits := (List.dropWhile_suffix _).subset (List.mem_reverse.mp hmem)
    simp [lineFeed_notMem_toDigits] at hdigits

theorem oneLine_elapsedText (nanoseconds : Nat) : OneLine (elapsedText nanoseconds) := by
  unfold elapsedText
  split_ifs
  · exact (oneLine_toString _).append (by decide)
  · exact (oneLine_withPoint _ _).append (by decide)
  · exact (oneLine_withPoint _ _).append (by decide)
  · exact (oneLine_withPoint _ _).append (by decide)

/-- The line that closes a scan is one line. -/
theorem oneLine_closing (nanoseconds errors : Nat) :
    OneLine ("Tokenized in " ++ elapsedText nanoseconds ++ " (" ++ toString errors
      ++ " errors)") := by
  have hopening : OneLine ("Tokenized in " ++ elapsedText nanoseconds) :=
    OneLine.append (by decide) (oneLine_elapsedText nanoseconds)
  exact ((hopening.append (by decide)).append (oneLine_toString errors)).append (by decide)

end ExprScan
