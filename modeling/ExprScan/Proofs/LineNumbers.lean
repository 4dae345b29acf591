import ExprScan.Line
import ExprScan.Proofs.Coverage
import Mathlib.Data.List.DropRight

/-! # Line numbers

  A scan counts line feeds as it passes them. Looking up the line of an offset
  counts the lines of the source up to it. Both come to the number of line
  feeds before the place.

  What a look-up finds is said here by the text before the offset and the text
  behind it: the line is what is left of the first one behind its last line
  feed, together with the second one up to its first (`Line.locate_eq`). An
  item holds no line feed, so all of it lies in that line.
-/

namespace ExprScan

/-! ### Lines of a text -/

/-- The part of a text behind its last line feed. -/
def lastLine (text : List Char) : List Char := text.rtakeWhile (· != '\n')

/-- The part of a text up to its first line feed, with the line feed. -/
def firstLine (text : List Char) : List Char :=
  text.takeWhile (· != '\n') ++ (text.dropWhile (· != '\n')).take 1

/-- A text is a single line, or a line and a line feed stand before a text. -/
theorem line_induction {motive : List Char → Prop}
    (single : ∀ line, '\n' ∉ line → motive line)
    (before : ∀ line text, '\n' ∉ line → motive text → motive (line ++ '\n' :: text))
    (text : List Char) : motive text := by
  -- By the length: what stands behind a line is shorter.
  induction hn : text.length using Nat.strongRecOn generalizing text with
  | _ n ih =>
    by_cases hmem : '\n' ∈ text
    · obtain ⟨line, rest, rfl, hline⟩ := List.eq_append_cons_of_mem hmem
      have hshorter : rest.length < n := by
        rw [← hn, List.length_append, List.length_cons]
        omega
      exact before line rest hline (ih _ hshorter rest rfl)
    · exact single text hmem

section separated

variable {α : Type} [BEq α] [LawfulBEq α] {sep : α} {line rest : List α}

theorem ne_of_notMem (h : sep ∉ line) : ∀ c ∈ line, (c != sep) = true := by
  intro c hc
  rw [bne_iff_ne]
  rintro rfl
  exact h hc

theorem takeWhile_line (h : sep ∉ line) : (line ++ sep :: rest).takeWhile (· != sep) = line := by
  rw [List.takeWhile_append_of_pos (ne_of_notMem h)]
  simp

theorem dropWhile_line (h : sep ∉ line) :
    (line ++ sep :: rest).dropWhile (· != sep) = sep :: rest := by
  rw [List.dropWhile_append_of_pos (ne_of_notMem h)]
  simp

theorem takeWhile_single (h : sep ∉ line) : line.takeWhile (· != sep) = line :=
  List.takeWhile_eq_self_iff.mpr (ne_of_notMem h)

theorem dropWhile_single (h : sep ∉ line) : line.dropWhile (· != sep) = [] :=
  List.dropWhile_eq_nil_iff.mpr (ne_of_notMem h)

theorem rtakeWhile_single (h : sep ∉ line) : line.rtakeWhile (· != sep) = line :=
  List.rtakeWhile_eq_self_iff.mpr (ne_of_notMem h)

theorem rtakeWhile_line :
    (line ++ sep :: rest).rtakeWhile (· != sep) = rest.rtakeWhile (· != sep) := by
  unfold List.rtakeWhile
  rw [List.reverse_append, List.reverse_cons, List.append_assoc, List.takeWhile_append]
  split
  · next hall =>
    rw [List.IsPrefix.eq_of_length (List.takeWhile_prefix _) hall]
    simp
  · rfl

end separated

section lines

variable {line rest : List Char}

theorem firstLine_single (h : '\n' ∉ line) : firstLine line = line := by
  rw [firstLine, takeWhile_single h, dropWhile_single h, List.take_nil, List.append_nil]

theorem firstLine_line (h : '\n' ∉ line) : firstLine (line ++ '\n' :: rest) = line ++ ['\n'] := by
  rw [firstLine, takeWhile_line h, dropWhile_line h]
  rfl

/-- A text without a line feed is part of the line behind it. -/
theorem firstLine_append (h : '\n' ∉ line) : firstLine (line ++ rest) = line ++ firstLine rest := by
  unfold firstLine
  rw [List.takeWhile_append_of_pos (ne_of_notMem h),
    List.dropWhile_append_of_pos (ne_of_notMem h), List.append_assoc]

theorem lastLine_single (h : '\n' ∉ line) : lastLine line = line := rtakeWhile_single h

theorem lineFeed_notMem_lastLine : '\n' ∉ lastLine line := by
  intro hmem
  exact absurd (List.mem_rtakeWhile_imp hmem) (by decide)

theorem lastLine_append_lineFeed : lastLine (line ++ '\n' :: rest) = lastLine rest :=
  rtakeWhile_line

end lines

namespace Line

/-! ### Looking up an offset -/

theorem locateFrom_single {number offset : Nat} {line : List Char} (h : '\n' ∉ line) :
    locateFrom number line offset = ⟨number, line, min offset (Text.byteLength line)⟩ := by
  rw [locateFrom]
  split
  · rw [takeWhile_single h]
  · next feed rest hdrop =>
    rw [dropWhile_single h] at hdrop
    simp at hdrop

theorem locateFrom_line {number offset : Nat} {line rest : List Char} (h : '\n' ∉ line) :
    locateFrom number (line ++ '\n' :: rest) offset =
      if offset < Text.byteLength line + 1 then ⟨number, line ++ ['\n'], offset⟩
      else locateFrom (number + 1) rest (offset - (Text.byteLength line + 1)) := by
  rw [locateFrom]
  split
  · next hdrop =>
    rw [dropWhile_line h] at hdrop
    simp at hdrop
  · next feed more hdrop =>
    rw [dropWhile_line h] at hdrop
    obtain ⟨rfl, rfl⟩ := List.cons.inj hdrop
    simp only [takeWhile_line h, Text.byteLength_append]
    rfl

/-- An offset in the first line is found there. -/
theorem locateFrom_firstLine {number offset : Nat} {text : List Char}
    (h : offset < Text.byteLength (firstLine text)) :
    locateFrom number text offset = ⟨number, firstLine text, offset⟩ := by
  by_cases hmem : '\n' ∈ text
  · obtain ⟨line, rest, rfl, hline⟩ := List.eq_append_cons_of_mem hmem
    rw [firstLine_line hline, Text.byteLength_append] at h
    rw [locateFrom_line hline, firstLine_line hline]
    exact if_pos h
  · rw [firstLine_single hmem] at h ⊢
    rw [locateFrom_single hmem, Nat.min_eq_left (Nat.le_of_lt h)]

theorem utf8Size_le_firstLine {text : List Char} {c : Char} (h : text.head? = some c) :
    c.utf8Size ≤ Text.byteLength (firstLine text) := by
  obtain ⟨more, rfl⟩ := List.head?_eq_some_iff.mp h
  unfold firstLine
  by_cases hc : c = '\n'
  · subst hc
    simp
  · simp [hc]

/-- Looking up an offset passes over the lines that end before it. -/
theorem locateFrom_skip (number offset : Nat) (before behind : List Char) :
    locateFrom number (before ++ behind) (Text.byteLength before + offset)
      = locateFrom (number + before.count '\n') (lastLine before ++ behind)
          (Text.byteLength (lastLine before) + offset) := by
  induction before using line_induction generalizing number with
  | single line hline =>
    rw [lastLine_single hline, List.count_eq_zero_of_not_mem hline]
    rfl
  | before line text hline ih =>
    have hfeed : Char.utf8Size '\n' = 1 := rfl
    have hlength : Text.byteLength (line ++ '\n' :: text) + offset
        = Text.byteLength line + 1 + (Text.byteLength text + offset) := by
      rw [Text.byteLength_append, Text.byteLength_cons]
      omega
    have hcount : number + (line ++ '\n' :: text).count '\n'
        = number + 1 + text.count '\n' := by
      rw [List.count_append, List.count_cons_self, List.count_eq_zero_of_not_mem hline]
      omega
    rw [List.append_assoc, List.cons_append, locateFrom_line hline, hlength,
      if_neg (by omega), Nat.add_sub_cancel_left, ih, lastLine_append_lineFeed, hcount]

/-- What the look-up of an offset in a source finds. The offset may lie inside
    the character there. -/
theorem locate_eq {source : String} {before behind : List Char} {c : Char}
    (hsource : source.toList = before ++ behind) (hhead : behind.head? = some c) (within : Nat)
    (hwithin : within < c.utf8Size) :
    locate source (Text.byteLength before + within)
      = ⟨1 + before.count '\n', lastLine before ++ firstLine behind,
          Text.byteLength (lastLine before) + within⟩ := by
  have hsize := utf8Size_le_firstLine hhead
  have hline : firstLine (lastLine before ++ behind) = lastLine before ++ firstLine behind :=
    firstLine_append lineFeed_notMem_lastLine
  rw [locate, hsource, locateFrom_skip, locateFrom_firstLine, hline]
  rw [hline, Text.byteLength_append]
  omega

/-- What the look-up of an offset at the end of a source or past it finds. -/
theorem locate_of_le {source : String} {offset : Nat}
    (h : Text.byteLength source.toList ≤ offset) :
    locate source offset
      = ⟨1 + source.toList.count '\n', lastLine source.toList,
          Text.byteLength (lastLine source.toList)⟩ := by
  obtain ⟨past, rfl⟩ := Nat.exists_eq_add_of_le h
  have hskip := locateFrom_skip 1 past source.toList []
  rw [List.append_nil, List.append_nil, locateFrom_single lineFeed_notMem_lastLine,
    Nat.min_eq_right (Nat.le_add_right _ _)] at hskip
  exact hskip

end Line

/-! ### Items and their lines -/

/-- The text that an item covers: the lexeme of a token, or the illegal
    character. -/
def Item.lexeme (source : String) : Item → Except Fault (List Char)
  | .token t => (t.lexeme source).map String.toList
  | .illegal report => .ok [report.character]

/-- An item covers the text of its piece. -/
theorem Category.Labels.lexeme_eq {category : Category} {source : String} {pos : Position}
    {before word behind : List Char} {item : Item} (h : category.Labels word)
    (hsource : source.toList = before ++ (word ++ behind))
    (hoffset : pos.offset = Text.byteLength before)
    (hitem : (category.unit pos word).item? = some item) : item.lexeme source = .ok word := by
  have hcovers : Crossing.Covers source (Passage.crossing ⟨pos, category, word⟩) :=
    Passage.covers hsource hoffset h
  match category, hitem with
  | .token kind, hitem =>
    obtain rfl := Option.some.inj hitem
    obtain ⟨-, hlexeme⟩ := hcovers
    show Except.map String.toList (Token.lexeme _ source) = .ok word
    rw [hlexeme]
    show Except.ok (String.ofList word).toList = .ok word
    rw [String.toList_ofList]
  | .illegal c, hitem =>
    obtain rfl := Option.some.inj hitem
    rw [h.eq_singleton]
    rfl

/-- **Line numbers**: the line of an item is one more than the line feeds
    before it, and looking up the place where the item starts finds the same
    line, with all of the item in it. The cursor at the end of a scan is on
    the line that is found at the end of the source and past it. -/
theorem line_numbers_agree (source : String)
    (hlines : source.toList.count '\n' ≤ 4294967294) :
    ∃ drained, (Lexer.ofSource source).drain = .ok drained ∧
      (∀ item ∈ drained.items, ∃ before word behind,
        source.toList = before ++ (word ++ behind) ∧
        Text.byteLength before = item.span.start ∧
        item.lexeme source = .ok word ∧
        item.line.toNat = 1 + before.count '\n' ∧
        (Line.locate source item.span.start).number = item.line.toNat ∧
        ∃ more, Text.dropBytes (Line.locate source item.span.start).column
          (Line.locate source item.span.start).text = .ok (word ++ more)) ∧
      drained.lexer.line.toNat = 1 + source.toList.count '\n' ∧
      ∀ offset, Text.byteLength source.toList ≤ offset →
        (Line.locate source offset).number = 1 + source.toList.count '\n' := by
  have hroom := Position.hasRoom_start hlines
  obtain ⟨drained, hdrain, hitems, hlast⟩ := Lexer.exists_drain_to_end hlines
  refine ⟨drained, hdrain, ?_, ?_, ?_⟩
  · intro item hitem
    rw [hitems] at hitem
    obtain ⟨category, before, word, behind, hsource, hlabels, hunit⟩ :=
      exists_of_mem_itemsFrom hitem
    rw [hsource] at hroom
    have hoffset : (Position.start.after before).offset = Text.byteLength before :=
      Position.offset_after_start
    have hstart : item.span.start = Text.byteLength before := by
      rw [hlabels.span_eq hunit, hoffset]
    have hline : item.line.toNat = 1 + before.count '\n' := by
      rw [Category.line_eq_of_item? hunit, Position.toNat_line_after hroom.left]
      rfl
    obtain ⟨c, more, hword⟩ := List.exists_cons_of_ne_nil hlabels.ne_nil
    have hhead : (word ++ behind).head? = some c := by
      rw [hword]
      rfl
    have hfound := Line.locate_eq hsource hhead 0 c.utf8Size_pos
    rw [Nat.add_zero, Nat.add_zero] at hfound
    refine ⟨before, word, behind, hsource, hstart.symm,
      hlabels.lexeme_eq hsource hoffset hunit, hline, ?_, firstLine behind, ?_⟩
    · rw [hstart, hfound, hline]
    · rw [hstart, hfound]
      simp only
      rw [Text.dropBytes_byteLength_append,
        firstLine_append (hlabels.lineFeed_notMem_of_item? hunit)]
  · rw [Lexer.line, hlast, Position.toNat_line_after hroom]
    rfl
  · intro offset hoffset
    rw [Line.locate_of_le hoffset]

/-- Behind a carriage return, an empty line and `é`, `!` is reported on line 3
    at column 2. -/
theorem line_numbers_agree_third_line :
    (String.ofList ['1', '\r', '\n', '\n', 'é', '!']).toList.count '\n' ≤ 4294967294 ∧
    ∃ drained,
      (Lexer.ofSource (String.ofList ['1', '\r', '\n', '\n', 'é', '!'])).drain = .ok drained ∧
      drained.lexer.line.toNat = 3 ∧
      (Line.locate (String.ofList ['1', '\r', '\n', '\n', 'é', '!']) 7).number = 3 := by
  have hlines : (String.ofList ['1', '\r', '\n', '\n', 'é', '!']).toList.count '\n'
      ≤ 4294967294 := by
    rw [String.toList_ofList]
    decide
  obtain ⟨drained, hdrain, -, hline, hend⟩ :=
    line_numbers_agree (String.ofList ['1', '\r', '\n', '\n', 'é', '!']) hlines
  have hlast := hend 7 (by rw [String.toList_ofList]; decide)
  rw [String.toList_ofList] at hline hlast
  exact ⟨hlines, drained, hdrain, hline, hlast⟩

end ExprScan
