import ExprScan.Proofs.LineNumbers

/-! # Comments and their lines

  A comment takes in the text up to the end of its line, but it stops at a
  carriage return. Behind it stands nothing, a line feed or a carriage return
  (`Settled.head_of_isComment`). In the first two cases the comment reaches
  the end of the line, and every later item is on a later line. A carriage
  return is a blank like any other, so what stands behind it on the line is
  scanned and is on the line of the comment.

  That later lines have greater numbers rests on two facts. The number never
  goes down, because a step whose addition would turn it over fails. And it
  does go up where a line ends, unless the run of line feeds there is so long
  that its length has nothing left in 32 bits (`EndsLine`). Both are kept by
  going on from place to place (`Climbs`), also in a scan that is cut short.
-/

namespace ExprScan

/-! ### The end of a line -/

/-- The run of line feeds that ends the first line of a text. -/
def lineEnd (text : List Char) : List Char :=
  (text.dropWhile (· != '\n')).takeWhile (· == '\n')

/-- If the first line of a text has an end, then the length of the run of line feeds there is
    not lost in 32 bits. -/
def EndsLine (text : List Char) : Prop :=
  (lineEnd text).length % UInt32.size = 0 → '\n' ∉ text

theorem EndsLine.behind {line rest : List Char} (h : EndsLine (line ++ rest))
    (hline : '\n' ∉ line) : EndsLine rest := by
  intro hrun hmem
  have hsame : lineEnd (line ++ rest) = lineEnd rest := by
    unfold lineEnd
    rw [List.dropWhile_append_of_pos (ne_of_notMem hline)]
  exact h (hsame ▸ hrun) (List.mem_append_right line hmem)

/-- A run of line feeds that goes on no more is what ends the line. -/
theorem lineEnd_run {run rest : List Char} (hsome : '\n' ∈ run) (hrun : ∀ c ∈ run, c = '\n')
    (hrest : rest.head? ≠ some '\n') : lineEnd (run ++ rest) = run := by
  have hdrop : (run ++ rest).dropWhile (· != '\n') = run ++ rest := by
    cases run with
    | nil => simp at hsome
    | cons c more => simp [hrun c List.mem_cons_self]
  have htake : rest.takeWhile (· == '\n') = [] := by
    cases rest with
    | nil => rfl
    | cons c more => simpa using hrest
  unfold lineEnd
  rw [hdrop, List.takeWhile_append_of_pos (by simpa using hrun), htake, List.append_nil]

/-! ### Going on -/

/-- Going on from a cursor over a first part of the text ahead: the line number does not go
    down, and it goes up over a line feed. -/
structure Climbs (pos : Position) (text passed : List Char) (next : Position)
    (rest : List Char) : Prop where
  text_eq : text = passed ++ rest
  line_le : pos.line.toNat ≤ next.line.toNat
  line_lt : EndsLine text → '\n' ∈ passed → pos.line.toNat < next.line.toNat

theorem Climbs.refl (pos : Position) (text : List Char) : Climbs pos text [] pos text :=
  ⟨rfl, Nat.le_refl _, by simp⟩

theorem Climbs.trans {pos middle next : Position} {text first between second rest : List Char}
    (hfirst : Climbs pos text first middle between)
    (hsecond : Climbs middle between second next rest) :
    Climbs pos text (first ++ second) next rest := by
  have hle := hsecond.line_le
  refine ⟨?_, Nat.le_trans hfirst.line_le hle, ?_⟩
  · rw [hfirst.text_eq, hsecond.text_eq, List.append_assoc]
  · intro hends hmem
    -- The first line ends in the first part or else in the second one.
    by_cases hfeed : '\n' ∈ first
    · exact Nat.lt_of_lt_of_le (hfirst.line_lt hends hfeed) hle
    · rw [hfirst.text_eq] at hends
      have hlater := (List.mem_append.mp hmem).resolve_left hfeed
      exact Nat.lt_of_le_of_lt hfirst.line_le (hsecond.line_lt (hends.behind hfeed) hlater)

/-- A step that succeeds goes on over its piece. -/
theorem Piece.climbs_of_step {piece : Piece} {pos : Position} {text : List Char} {found : Step}
    (hfirst : Piece.first? text = some piece) (hstep : piece.step pos = .ok found) :
    Climbs pos text piece.text found.next piece.rest := by
  have hlabels := Piece.labels_of_first? hfirst
  have hline := Piece.toNat_line_of_step hlabels hstep
  have htext := Piece.text_append_rest hfirst
  refine ⟨htext.symm, by omega, ?_⟩
  intro hends hfeed
  have hbreaks : piece.category = .lineBreaks := by
    by_contra hother
    exact hlabels.lineFeed_notMem hother hfeed
  rw [hbreaks] at hlabels
  have hall : ∀ c ∈ piece.text, c = '\n' := by
    intro c hc
    exact (List.count_eq_length.mp hlabels.length_eq_count c hc).symm
  -- The piece is the whole run that ends the line, because it goes on no more.
  have hrun : lineEnd text = piece.text := by
    rw [← htext]
    apply lineEnd_run hfeed hall
    intro hhead
    apply Piece.settled_of_first? hfirst _ hhead
    refine ⟨.lineBreaks, by simp, ?_⟩
    intro c hc
    rcases List.mem_append.mp hc with hc | hc
    · simp [isLineBreak, hall c hc]
    · simp [isLineBreak, List.mem_singleton.mp hc]
  have hkept : (lineEnd text).length % UInt32.size ≠ 0 := by
    intro hzero
    exact hends hzero (htext ▸ List.mem_append_left _ hfeed)
  rw [hrun, ← hlabels.length_eq_count] at hkept
  omega

/-- Looking for the next item goes on over a first part of the text, in which the item stands. -/
theorem exists_climbs_of_seek {pos : Position} {text : List Char} {sought : Sought}
    (h : seek pos text = .ok sought) :
    ∃ passed, Climbs pos text passed sought.position sought.rest ∧
      ∀ item, sought.item = some item →
        item.line = sought.position.line ∧ ∃ c ∈ passed, isSeparator c = false := by
  fun_induction seek pos text with
  | case1 pos text =>
    obtain rfl := Except.ok.inj h
    exact ⟨[], .refl pos text, by simp⟩
  | case2 => simp at h
  | case3 pos text piece hpiece found hstep item hitem =>
    have hlabels := Piece.labels_of_first? hpiece
    have hclimbs := Piece.climbs_of_step hpiece hstep
    obtain rfl := Except.ok.inj h
    obtain rfl := Piece.eq_of_step hlabels hstep
    refine ⟨piece.text, hclimbs, ?_⟩
    intro other hother
    obtain rfl := Option.some.inj hother
    have hnone := hlabels.lineFeed_notMem_of_item? hitem
    obtain ⟨c, more, hword⟩ := List.exists_cons_of_ne_nil hlabels.ne_nil
    refine ⟨?_, c, ?_, ?_⟩
    · rw [Category.line_eq_of_item? hitem, Position.after_of_lineFeed_notMem hnone]
    · rw [hword]
      exact List.mem_cons_self
    · rw [hword] at hlabels
      exact hlabels.not_isSeparator (Category.isItem_of_item? hitem)
  | case4 pos text piece hpiece found hstep hitem ih =>
    obtain ⟨passed, hclimbs, hfound⟩ := ih h
    refine ⟨piece.text ++ passed, (Piece.climbs_of_step hpiece hstep).trans hclimbs, ?_⟩
    intro item hsome
    obtain ⟨hline, c, hmem, hc⟩ := hfound item hsome
    exact ⟨hline, c, List.mem_append_right _ hmem, hc⟩

namespace Lexer

variable {first lexer : Lexer} {given : List Item}

/-- Asking for items goes on over a first part of the text. Those on the line of the first
    cursor stand before the first line feed. -/
theorem Reaches.exists_climbs (h : Reaches first given lexer) :
    ∃ passed, Climbs first.position first.rest passed lexer.position lexer.rest ∧
      (EndsLine first.rest → ∀ item ∈ given, item.line = first.position.line →
        ∃ c ∈ first.rest.takeWhile (· != '\n'), isSeparator c = false) := by
  induction h with
  | unasked => exact ⟨[], .refl _ _, by simp⟩
  | @asked given reached _ hbefore hnext ih =>
    obtain ⟨passed, hclimbs, hgiven⟩ := ih
    obtain ⟨sought, hseek, rfl⟩ := exists_seek_of_next hnext
    obtain ⟨more, hmore, hsought⟩ := exists_climbs_of_seek hseek
    rw [position_reading, rest_reading, item_reading]
    have hwhole := hclimbs.trans hmore
    refine ⟨passed ++ more, hwhole, ?_⟩
    intro hends item hitem hline
    rcases List.mem_append.mp hitem with hitem | hitem
    · exact hgiven hends item hitem hline
    · obtain ⟨hsame, c, hc, hseparator⟩ := hsought item (Option.mem_toList.mp hitem)
      -- Over a line feed the number would have gone up.
      have hnone : '\n' ∉ passed ++ more := by
        intro hfeed
        have hlt := hwhole.line_lt hends hfeed
        rw [← hsame, hline] at hlt
        exact Nat.lt_irrefl _ hlt
      refine ⟨c, ?_, hseparator⟩
      rw [hwhole.text_eq, List.takeWhile_append_of_pos (ne_of_notMem hnone)]
      exact List.mem_append_left _ (List.mem_append_right passed hc)

end Lexer

/-! ### Behind a comment -/

/-- A comment holds no carriage return and no line feed. -/
theorem IsComment.ne_of_mem {word : List Char} (h : IsComment word) {c : Char} (hc : c ∈ word) :
    c ≠ '\r' ∧ c ≠ '\n' := by
  obtain ⟨body, rfl, hbody⟩ := h
  rcases List.mem_cons.mp hc with rfl | hc
  · decide
  · have hchar := hbody c hc
    rwa [isCommentChar, Bool.and_eq_true, bne_iff_ne, bne_iff_ne] at hchar

/-- Behind a comment stands a carriage return, a line feed or nothing. -/
theorem Settled.head_of_isComment {word behind : List Char} (h : Settled word behind)
    (hword : IsComment word) {c : Char} (hhead : behind.head? = some c) : c = '\r' ∨ c = '\n' := by
  have hends := h.not_isCommentChar hword hhead
  rw [isCommentChar, Bool.and_eq_false_iff, bne_eq_false_iff_eq, bne_eq_false_iff_eq] at hends
  exact hends

/-- Without a carriage return behind a comment, nothing is left of its line. -/
theorem Settled.takeWhile_eq_nil_of_isComment {word behind : List Char} (h : Settled word behind)
    (hword : IsComment word) (hreturn : behind.head? ≠ some '\r') :
    behind.takeWhile (· != '\n') = [] := by
  cases behind with
  | nil => rfl
  | cons c more =>
    rcases h.head_of_isComment hword rfl with rfl | rfl
    · exact absurd rfl hreturn
    · rfl

/-- Where something other than a separator stands on the first line of a text, the first item
    of the text is on the line where the text starts. -/
theorem line_eq_of_mem_line {pos : Position} {text : List Char} {item : Item} {later : List Item}
    (hitems : itemsFrom pos text = item :: later) {c : Char}
    (hmem : c ∈ text.takeWhile (· != '\n')) (hc : isSeparator c = false) :
    item.line = pos.line := by
  obtain ⟨gap, category, word, rest, rfl, hgap, hunit⟩ := exists_gap_of_itemsFrom_eq hitems
  have hnone : '\n' ∉ gap := by
    intro hfeed
    obtain ⟨line, more, rfl, hline⟩ := List.eq_append_cons_of_mem hfeed
    rw [List.append_assoc, List.cons_append, takeWhile_line hline] at hmem
    rw [hgap c (List.mem_append_left _ hmem)] at hc
    exact Bool.false_ne_true hc.symm
  rw [Category.line_eq_of_item? hunit, Position.after_of_lineFeed_notMem hnone]

/-- **Comments**: a comment goes on to the next carriage return or line feed or to the end. Let
    the run of line feeds that ends its line, if there is one, have a length that 32 bits keep.
    Without a carriage return directly behind the comment, no item that is given later is on
    its line. In any case, if another item is given, some later item is on the line of the
    comment exactly if something other than a separator stands there behind it. -/
theorem comments_end_lines (source : String) (given : List Item) (lexer : Lexer)
    (hreaches : Lexer.Reaches (.ofSource source) given lexer) (earlier later : List Item)
    (comment : Token) (hcomment : comment.kind = .comment)
    (hgiven : given = earlier ++ .token comment :: later) :
    ∃ before word behind, source.toList = before ++ (word ++ behind) ∧
      Text.byteLength before = comment.span.start ∧
      comment.lexeme source = .ok (String.ofList word) ∧
      (∀ c ∈ word, c ≠ '\r' ∧ c ≠ '\n') ∧
      (∀ c, behind.head? = some c → c = '\r' ∨ c = '\n') ∧
      (((lineEnd behind).length % 4294967296 = 0 → '\n' ∉ behind) →
        (behind.head? ≠ some '\r' → ∀ item ∈ later, item.line ≠ comment.line) ∧
        (later ≠ [] → ((∃ item ∈ later, item.line = comment.line) ↔
          ∃ c ∈ behind.takeWhile (· != '\n'), isSeparator c = false))) := by
  -- Whatever is given later is asked for from the place where the comment ends.
  obtain ⟨reached, sought, hbefore, hseeking, hsought, hafter⟩ := hreaches.exists_seeking hgiven
  obtain ⟨passed, hpassed, hposition⟩ := hbefore.within.exists_before
  obtain ⟨gap, category, word, hrest, -, hlabels, hsettled, hunit, hnext⟩ :=
    hseeking.exists_parts hsought
  obtain rfl : category = .token .comment := by
    match category, hunit with
    | .token kind, hunit =>
      obtain rfl := Item.token.inj (Option.some.inj hunit)
      exact congrArg Category.token hcomment
  rw [hposition, ← Position.after_append] at hunit
  rw [hposition, ← Position.after_append, ← Position.after_append] at hnext
  have hsource : source.toList = (passed ++ gap) ++ (word ++ sought.rest) := by
    rw [hpassed, hrest, List.append_assoc]
  have hcovers : Crossing.Covers source
      (Passage.crossing ⟨Position.start.after (passed ++ gap), .token .comment, word⟩) :=
    Passage.covers hsource Position.offset_after_start hlabels
  have hword : IsComment word := hlabels.spells (by simp)
  have hline : comment.line = sought.position.line := by
    have hfeed : '\n' ∉ word := hlabels.lineFeed_notMem (by simp)
    have hstart : comment.line = (Position.start.after (passed ++ gap)).line :=
      Category.line_eq_of_item? hunit
    rw [hstart, hnext, ← List.append_assoc, @Position.after_append _ _ word,
      Position.after_of_lineFeed_notMem hfeed]
  have hahead : itemsFrom sought.position sought.rest
      = later ++ itemsFrom lexer.position lexer.rest := by
    have hall := (hbefore.within.reading hseeking).items_eq
    rw [hreaches.within.items_eq, hgiven, Lexer.item_reading, hsought, Lexer.position_reading,
      Lexer.rest_reading, List.append_assoc, List.append_assoc] at hall
    exact (List.cons.inj (List.append_cancel_left hall)).2.symm
  obtain ⟨-, -, hshares⟩ := hafter.exists_climbs
  rw [Lexer.position_reading, Lexer.rest_reading, ← hline] at hshares
  obtain rfl := Item.token.inj (Option.some.inj hunit)
  refine ⟨passed ++ gap, word, sought.rest, hsource, Position.offset_after_start.symm,
    hcovers.2, ?_, ?_, ?_⟩
  · intro c hc
    exact hword.ne_of_mem hc
  · intro c hc
    exact hsettled.head_of_isComment hword hc
  · intro hends
    refine ⟨?_, ?_⟩
    · intro hreturn item hitem hsame
      obtain ⟨c, hc, -⟩ := hshares hends item hitem hsame
      rw [hsettled.takeWhile_eq_nil_of_isComment hword hreturn] at hc
      simp at hc
    · intro hmore
      constructor
      · rintro ⟨item, hitem, hsame⟩
        exact hshares hends item hitem hsame
      · rintro ⟨c, hmem, hc⟩
        obtain ⟨next, others, rfl⟩ := List.exists_cons_of_ne_nil hmore
        have hnextItem := line_eq_of_mem_line hahead hmem hc
        exact ⟨next, List.mem_cons_self, hnextItem.trans hline.symm⟩

/-- Behind `#a` and a line feed, `1` is on the next line. -/
theorem comments_end_lines_next_line :
    ∃ lexer, Lexer.Reaches (.ofSource (String.ofList ['#', 'a', '\n', '1']))
        [.token ⟨.comment, .text (String.ofList ['#', 'a']), 1, 0, 2⟩,
          .token ⟨.integer, .integer 1, 2, 3, 4⟩] lexer ∧
      ∃ before word behind, ['#', 'a', '\n', '1'] = before ++ (word ++ behind) ∧
        Text.byteLength before = 0 ∧
        (((lineEnd behind).length % 4294967296 = 0 → '\n' ∉ behind) → behind.head? ≠ some '\r' →
          ∀ item ∈ [Item.token ⟨.integer, .integer 1, 2, 3, 4⟩], item.line ≠ 1) := by
  have hlines : (String.ofList ['#', 'a', '\n', '1']).toList.count '\n' ≤ 4294967294 := by
    rw [String.toList_ofList]
    decide
  have hitems : itemsFrom .start ['#', 'a', '\n', '1']
      = [.token ⟨.comment, .text (String.ofList ['#', 'a']), 1, 0, 2⟩,
          .token ⟨.integer, .integer 1, 2, 3, 4⟩] := by
    have hmark : Piece.first? ['#', 'a', '\n', '1']
        = some ⟨.token .comment, ['#', 'a'], ['\n', '1']⟩ := rfl
    have hfeed : Piece.first? ['\n', '1'] = some ⟨.lineBreaks, ['\n'], ['1']⟩ := rfl
    have hone : Piece.first? ['1'] = some ⟨.token .integer, ['1'], []⟩ := rfl
    rw [itemsFrom_of_first? hmark, itemsFrom_of_first? hfeed, itemsFrom_of_first? hone,
      itemsFrom_nil]
    rfl
  obtain ⟨drained, hdrain, hgiven⟩ := Lexer.exists_drain_ofSource hlines
  have hreaches := Lexer.Reaches.of_drain hdrain
  rw [hgiven, String.toList_ofList, hitems] at hreaches
  obtain ⟨before, word, behind, hsource, hstart, -, -, -, hends⟩ :=
    comments_end_lines _ _ _ hreaches [] [.token ⟨.integer, .integer 1, 2, 3, 4⟩]
      ⟨.comment, .text (String.ofList ['#', 'a']), 1, 0, 2⟩ rfl rfl
  rw [String.toList_ofList] at hsource
  refine ⟨drained.lexer, hreaches, before, word, behind, hsource, hstart, ?_⟩
  intro hkept
  exact (hends hkept).1

/-- Behind `#a` and a carriage return, `1` is on the line of the comment. -/
theorem comment_before_return_shares_line :
    ¬ ∀ (source : String) (drained : Lexer.Drained),
      (Lexer.ofSource source).drain = .ok drained →
      ∀ (earlier later : List Item) (comment : Token),
        drained.items = earlier ++ .token comment :: later → comment.kind = .comment →
        ∀ item ∈ later, item.line ≠ comment.line := by
  intro hapart
  have hlines : (String.ofList ['#', 'a', '\r', '1']).toList.count '\n' ≤ 4294967294 := by
    rw [String.toList_ofList]
    decide
  have hitems : itemsFrom .start ['#', 'a', '\r', '1']
      = [.token ⟨.comment, .text (String.ofList ['#', 'a']), 1, 0, 2⟩,
          .token ⟨.integer, .integer 1, 1, 3, 4⟩] := by
    have hmark : Piece.first? ['#', 'a', '\r', '1']
        = some ⟨.token .comment, ['#', 'a'], ['\r', '1']⟩ := rfl
    have hreturn : Piece.first? ['\r', '1'] = some ⟨.blank, ['\r'], ['1']⟩ := rfl
    have hone : Piece.first? ['1'] = some ⟨.token .integer, ['1'], []⟩ := rfl
    rw [itemsFrom_of_first? hmark, itemsFrom_of_first? hreturn, itemsFrom_of_first? hone,
      itemsFrom_nil]
    rfl
  obtain ⟨drained, hdrain, hgiven⟩ := Lexer.exists_drain_ofSource hlines
  rw [String.toList_ofList, hitems] at hgiven
  exact hapart _ drained hdrain [] [.token ⟨.integer, .integer 1, 1, 3, 4⟩]
    ⟨.comment, .text (String.ofList ['#', 'a']), 1, 0, 2⟩ hgiven rfl _ List.mem_cons_self rfl

end ExprScan
