import ExprScan.Proofs.Separators
import ExprScan.Step

/-! # What a step finds

  A step is looked at from a cursor that stands between two characters: the
  source is a part before the cursor and a part behind it, and the offset is
  the length of the first part in bytes.

  - `Piece.step_eq` says what a step over a piece reports, where it stops and
    when the line number has no room left.
  - `step_eq` ties a step over the source to the first piece of what stands
    behind the cursor.

  The main statement is that a step takes the longest word that stands at the
  cursor, or reports the character there if no word does
  (`step_takes_longest_word`).
-/

namespace ExprScan

/-! ### Cursors that move over a text -/

/-- The cursor behind a text that stands at a cursor. The line number has 32 bits. -/
def Position.after (pos : Position) (text : List Char) : Position :=
  ⟨pos.line + UInt32.ofNat (text.count '\n'), pos.offset + Text.byteLength text⟩

/-- Whether the lines of a text that stands at a cursor can be numbered. -/
def Position.HasRoom (pos : Position) (text : List Char) : Prop :=
  pos.line.toNat + text.count '\n' < UInt32.size

namespace Position

variable {pos : Position} {first second text : List Char}

@[simp] theorem offset_after : (pos.after text).offset = pos.offset + Text.byteLength text := rfl

theorem offset_after_start : (start.after text).offset = Text.byteLength text :=
  Nat.zero_add _

@[simp] theorem after_nil (pos : Position) : pos.after [] = pos := by simp [after]

theorem after_append : pos.after (first ++ second) = (pos.after first).after second := by
  unfold after
  rw [List.count_append, UInt32.ofNat_add, Text.byteLength_append]
  simp only [UInt32.add_assoc, Nat.add_assoc]

theorem after_of_lineFeed_notMem (h : '\n' ∉ text) :
    pos.after text = ⟨pos.line, pos.offset + Text.byteLength text⟩ := by
  unfold after
  rw [List.count_eq_zero_of_not_mem h]
  simp

theorem toNat_line_after (h : pos.HasRoom text) :
    (pos.after text).line.toNat = pos.line.toNat + text.count '\n' := by
  unfold HasRoom at h
  have hsmall : text.count '\n' < UInt32.size := by omega
  show (pos.line + UInt32.ofNat (text.count '\n')).toNat = _
  rw [UInt32.toNat_add, UInt32.toNat_ofNat_of_lt' hsmall]
  exact Nat.mod_eq_of_lt h

theorem HasRoom.left (h : pos.HasRoom (first ++ second)) : pos.HasRoom first := by
  unfold HasRoom at *
  rw [List.count_append] at h
  omega

theorem HasRoom.right (h : pos.HasRoom (first ++ second)) :
    (pos.after first).HasRoom second := by
  have hline := toNat_line_after h.left
  unfold HasRoom at *
  rw [List.count_append] at h
  omega

theorem hasRoom_start (h : text.count '\n' ≤ 4294967294) : start.HasRoom text := by
  unfold HasRoom
  have hline : start.line.toNat = 1 := rfl
  have hsize : UInt32.size = 4294967296 := rfl
  omega

end Position

/-! ### Steps over a piece -/

/-- What a step reports of a piece that stands at a cursor. -/
def Category.unit (category : Category) (pos : Position) (text : List Char) : Scanned :=
  match category with
  | .blank => .blank
  | .lineBreaks => .lineBreaks (UInt32.ofNat text.length)
  | .token kind =>
    .token ⟨kind, kind.valueOf text, pos.line, pos.offset, pos.offset + Text.byteLength text⟩
  | .illegal character => .illegal ⟨character, pos⟩

theorem Category.Labels.length_eq_count {text : List Char} (h : Labels .lineBreaks text) :
    text.count '\n' = text.length := by
  have hspells : Category.lineBreaks.Spells text := h.spells (by simp)
  rw [List.count_eq_length]
  intro c hc
  have hbreak : c = '\n' := by simpa [isLineBreak] using hspells.2 c hc
  exact hbreak.symm

/-- A step over a piece stops behind it, unless the line number has no room. -/
theorem Piece.step_eq {piece : Piece} (h : piece.category.Labels piece.text) (pos : Position) :
    piece.step pos =
      if pos.line.toNat + (UInt32.ofNat (piece.text.count '\n')).toNat < UInt32.size then
        .ok ⟨piece.category.unit pos piece.text, pos.after piece.text⟩
      else .error .lineOverflow := by
  obtain ⟨category, text, rest⟩ := piece
  -- Only line breaks move the line, and theirs is the one addition that can fail.
  by_cases hbreaks : category = .lineBreaks
  · subst hbreaks
    have hcount := h.length_eq_count
    simp only [step, addLines]
    simp only at hcount
    rw [hcount]
    split
    · simp [Category.unit, Position.after, hcount, Position.skip, bind, Except.bind, pure,
        Except.pure]
    · simp [bind, Except.bind]
  · have hnone : '\n' ∉ text := h.lineFeed_notMem hbreaks
    have hline := pos.line.toNat_lt
    rw [List.count_eq_zero_of_not_mem hnone, Position.after_of_lineFeed_notMem hnone]
    rw [if_pos (by simpa using hline)]
    match category with
    | .blank => rfl
    | .lineBreaks => exact absurd rfl hbreaks
    | .token kind => rfl
    | .illegal c => rfl

theorem Piece.step_of_hasRoom {piece : Piece} {pos : Position}
    (h : piece.category.Labels piece.text) (hroom : pos.HasRoom piece.text) :
    piece.step pos = .ok ⟨piece.category.unit pos piece.text, pos.after piece.text⟩ := by
  unfold Position.HasRoom at hroom
  have hsmall : piece.text.count '\n' < UInt32.size := by omega
  rw [step_eq h, UInt32.toNat_ofNat_of_lt' hsmall, if_pos hroom]

theorem Piece.eq_of_step {piece : Piece} {pos : Position} {found : Step}
    (h : piece.category.Labels piece.text) (hstep : piece.step pos = .ok found) :
    found = ⟨piece.category.unit pos piece.text, pos.after piece.text⟩ := by
  rw [step_eq h] at hstep
  split at hstep
  · exact (Except.ok.inj hstep).symm
  · simp at hstep

/-- A step that succeeds adds up the line feeds of its piece as far as 32 bits hold them. -/
theorem Piece.toNat_line_of_step {piece : Piece} {pos : Position} {found : Step}
    (hlabels : piece.category.Labels piece.text) (hstep : piece.step pos = .ok found) :
    found.next.line.toNat = pos.line.toNat + piece.text.count '\n' % UInt32.size := by
  rw [Piece.step_eq hlabels] at hstep
  split at hstep
  · next hroom =>
    obtain rfl := Except.ok.inj hstep
    show (pos.line + UInt32.ofNat (piece.text.count '\n')).toNat = _
    rw [UInt32.toNat_add, Nat.mod_eq_of_lt hroom, UInt32.toNat_ofNat']
  · exact nomatch hstep

/-! ### Steps over a source -/

/-- A step from between two characters looks at what stands behind the cursor. -/
theorem step_eq {source : String} {pos : Position} {before rest : List Char}
    (hsource : source.toList = before ++ rest) (hoffset : pos.offset = Text.byteLength before) :
    step source pos =
      match Piece.first? rest with
      | none => .ok none
      | some piece => (piece.step pos).map some := by
  unfold step
  rw [hsource, hoffset, Text.dropBytes_byteLength_append]
  simp only [bind, Except.bind]
  cases Piece.first? rest with
  | none => rfl
  | some piece =>
    simp only
    cases piece.step pos <;> rfl

theorem step_end {source : String} {pos : Position}
    (hoffset : pos.offset = Text.byteLength source.toList) : step source pos = .ok none := by
  rw [step_eq (List.append_nil _).symm hoffset]
  rfl

/-- A step that does not run out of line numbers passes the first piece. -/
theorem step_of_ne_lineOverflow {source : String} {pos : Position} {before rest : List Char}
    {piece : Piece} (hsource : source.toList = before ++ rest)
    (hoffset : pos.offset = Text.byteLength before) (hpiece : Piece.first? rest = some piece)
    (hline : step source pos ≠ .error .lineOverflow) :
    step source pos = .ok (some ⟨piece.category.unit pos piece.text, pos.after piece.text⟩) := by
  rw [step_eq hsource hoffset, hpiece] at hline ⊢
  simp only [Piece.step_eq (Piece.labels_of_first? hpiece)] at hline ⊢
  split
  · rfl
  · next hfull =>
    rw [if_neg hfull] at hline
    exact absurd rfl hline

/-- A step over a piece that has room for its lines. -/
theorem step_of_first? {source : String} {pos : Position} {before rest : List Char}
    {piece : Piece} (hsource : source.toList = before ++ rest)
    (hoffset : pos.offset = Text.byteLength before) (hpiece : Piece.first? rest = some piece)
    (hroom : pos.HasRoom rest) :
    step source pos = .ok (some ⟨piece.category.unit pos piece.text, pos.after piece.text⟩) := by
  have hlabels := Piece.labels_of_first? hpiece
  rw [← Piece.text_append_rest hpiece] at hroom
  rw [step_eq hsource hoffset, hpiece]
  simp only [Piece.step_of_hasRoom hlabels hroom.left]
  rfl

/-! ### The longest word at the cursor -/

/-- **Maximal munch**: between two characters before the end of the source,
    and unless the line number has no room, a step takes the longest word
    that stands there, whose category is the only one it has. Where no word
    stands, the character is reported and nothing else is passed. -/
theorem step_takes_longest_word (source : String) (pos : Position) (before : List Char)
    (c : Char) (more : List Char) (hsource : source.toList = before ++ c :: more)
    (hoffset : pos.offset = Text.byteLength before)
    (hline : step source pos ≠ .error .lineOverflow) :
    ((∀ word, word <+: c :: more → ¬ IsWord word) →
      step source pos
        = .ok (some ⟨.illegal ⟨c, pos⟩, ⟨pos.line, pos.offset + c.utf8Size⟩⟩)) ∧
    ((∃ word, word <+: c :: more ∧ IsWord word) →
      ∃ (word : List Char) (category : Category),
        word <+: c :: more ∧
        (∀ other, other <+: c :: more → IsWord other → other.length ≤ word.length) ∧
        category.Spells word ∧
        (∀ other : Category, other.Spells word → other = category) ∧
        step source pos = .ok (some ⟨category.unit pos word, pos.after word⟩) ∧
        (∀ s : Symbol, (Kind.symbol s).valueOf word = .absent) ∧
        Kind.comment.valueOf word = .text (String.ofList word)) := by
  have hfirst : Piece.first? (c :: more) = some (Piece.cut c more) := rfl
  have hstep := step_of_ne_lineOverflow hsource hoffset hfirst hline
  have hstands : (Piece.cut c more).text <+: c :: more :=
    ⟨_, Piece.cut_text_append_rest c more⟩
  constructor
  · intro hnone
    rcases Piece.cut_longest c more with hlongest | ⟨hcut, -⟩
    · exact absurd ⟨_, hlongest.spells⟩ (hnone _ hstands)
    · -- The character is no line feed, so the line stays the same.
      have hlabels := Piece.labels_of_first? hfirst
      rw [hcut] at hstep hlabels
      have hfeed : '\n' ∉ [c] := hlabels.lineFeed_notMem (by simp)
      rw [hstep, Position.after_of_lineFeed_notMem hfeed]
      simp [Category.unit]
  · rintro ⟨word, hword, hisWord⟩
    rcases Piece.cut_longest c more with hlongest | ⟨-, hnone⟩
    · refine ⟨_, _, hstands, ?_, hlongest.spells, ?_, hstep, fun s => rfl, rfl⟩
      · intro other hother hotherWord
        exact hlongest.length_le other hotherWord hother
      · intro other hother
        exact Category.spells_unique hother hlongest.spells
    · exact absurd hisWord (hnone word hword)

/-- At `12.5` in `é12.5<=`, on line 3, words stand at the cursor, and one of
    them is taken. -/
theorem step_takes_longest_word_float :
    step (String.ofList ['é', '1', '2', '.', '5', '<', '=']) ⟨3, 2⟩ ≠ .error .lineOverflow ∧
    ['1'] <+: ['1', '2', '.', '5', '<', '='] ∧ IsWord ['1'] ∧
    ∃ (word : List Char) (category : Category),
      word <+: ['1', '2', '.', '5', '<', '='] ∧ category.Spells word ∧
      step (String.ofList ['é', '1', '2', '.', '5', '<', '=']) ⟨3, 2⟩
        = .ok (some ⟨category.unit ⟨3, 2⟩ word, Position.after ⟨3, 2⟩ word⟩) := by
  have hline : step (String.ofList ['é', '1', '2', '.', '5', '<', '=']) ⟨3, 2⟩
      ≠ .error .lineOverflow := by decide +kernel
  have hstands : ['1'] <+: ['1', '2', '.', '5', '<', '='] := by decide
  have hinteger : IsWord ['1'] := by
    refine ⟨.token .integer, List.cons_ne_nil _ _, ?_⟩
    intro c hc
    obtain rfl : c = '1' := List.mem_singleton.mp hc
    rfl
  obtain ⟨word, category, hword, -, hspells, -, hstep, -⟩ :=
    (step_takes_longest_word _ ⟨3, 2⟩ ['é'] '1' ['2', '.', '5', '<', '='] String.toList_ofList
      rfl hline).2 ⟨['1'], hstands, hinteger⟩
  exact ⟨hline, hstands, hinteger, word, category, hword, hspells, hstep⟩

end ExprScan
