import ExprScan.Proofs.RoundTrip
import ExprScan.Proofs.Sessions
import Mathlib.Data.List.Pairwise

/-! # Two lists for one stream

  Scanning a whole source gives its tokens and its reports in two lists, so how
  they follow one another is not said any more. It can be told from where they
  start: no two items start at the same place, and each list is in order of its
  starts. Merging the two lists by the starts therefore puts every item back
  where it was (`mergeByStart_eq`), and what comes out is the stream.
-/

namespace ExprScan

/-- Tokens and reports in one list, by where they start. -/
def mergeByStart (tokens : List Token) (reports : List Illegal) : List Item :=
  (tokens.map Item.token).merge (reports.map Item.illegal)
    fun first second => first.span.start ≤ second.span.start

/-! ### Items in order -/

theorem Item.eq_token_of_token? {item : Item} {token : Token} (h : item.token? = some token) :
    item = .token token := by
  cases item with
  | token other => rw [Option.some.inj h]
  | illegal report => exact nomatch h

theorem Item.eq_illegal_of_illegal? {item : Item} {report : Illegal}
    (h : item.illegal? = some report) : item = .illegal report := by
  cases item with
  | token other => exact nomatch h
  | illegal other => rw [Option.some.inj h]

/-- Each item starts behind the items ahead of it. -/
theorem pairwise_start_itemsFrom (pos : Position) (text : List Char) :
    (itemsFrom pos text).Pairwise fun first second => first.span.start < second.span.start := by
  apply (pairwise_itemsFrom pos text).imp_of_mem
  intro first second hfirst _ hstop
  have hbounds := bounds_of_mem_itemsFrom hfirst
  omega

/-- As long as the lines can be numbered, no item is on a line above an item ahead of it. -/
theorem pairwise_line_itemsFrom {pos : Position} {text : List Char} (hroom : pos.HasRoom text) :
    (itemsFrom pos text).Pairwise fun first second => first.line ≤ second.line := by
  induction text using Piece.text_induction generalizing pos with
  | nil => simp
  | piece category text rest hlabels hsettled ih =>
    rw [itemsFrom_append hlabels hsettled, List.pairwise_append]
    refine ⟨by cases (category.unit pos text).item? <;> simp, ih hroom.right, ?_⟩
    intro first hfirst second hsecond
    have hline := Category.line_eq_of_item? (Option.mem_toList.mp hfirst)
    have hafter := Position.toNat_line_after hroom.left
    obtain ⟨before, behind, -, -, hcount⟩ :=
      exists_toNat_line_of_mem_itemsFrom hroom.right hsecond
    rw [hline, UInt32.le_iff_toNat_le]
    omega

/-- Two items of a text share no byte. -/
theorem apart_of_mem_itemsFrom {pos : Position} {text : List Char} {first second : Item}
    (hfirst : first ∈ itemsFrom pos text) (hsecond : second ∈ itemsFrom pos text)
    (hne : first ≠ second) :
    first.span.stop ≤ second.span.start ∨ second.span.stop ≤ first.span.start := by
  have hsymm : Std.Symm fun first second : Item =>
      first.span.stop ≤ second.span.start ∨ second.span.stop ≤ first.span.start :=
    ⟨fun _ _ => Or.symm⟩
  have hapart : (itemsFrom pos text).Pairwise fun first second =>
      first.span.stop ≤ second.span.start ∨ second.span.stop ≤ first.span.start :=
    (pairwise_itemsFrom pos text).imp Or.inl
  exact hapart.forall hfirst hsecond hne

/-! ### Merging -/

section merge

variable {α : Type} {le : α → α → Bool}

/-- What comes before all of the second list goes first. -/
theorem merge_cons_left {x : α} {ys : List α} (h : ∀ y ∈ ys, le x y = true) (xs : List α) :
    (x :: xs).merge ys le = x :: xs.merge ys le := by
  cases ys with
  | nil => rw [List.merge_right, List.merge_right]
  | cons y ys => exact List.cons_merge_cons_pos le xs ys (h y List.mem_cons_self)

/-- What comes before all of the first list goes first. -/
theorem merge_cons_right {y : α} {xs : List α} (h : ∀ x ∈ xs, le x y = false) (ys : List α) :
    xs.merge (y :: ys) le = y :: xs.merge ys le := by
  cases xs with
  | nil => rw [List.nil_merge, List.nil_merge]
  | cons x xs =>
    apply List.cons_merge_cons_neg
    rw [h x List.mem_cons_self]
    exact Bool.false_ne_true

end merge

/-- Items in order of their starts come out of merging their tokens and reports. -/
theorem mergeByStart_eq {items : List Item}
    (h : items.Pairwise fun first second => first.span.start < second.span.start) :
    mergeByStart (items.filterMap Item.token?) (items.filterMap Item.illegal?) = items := by
  induction items with
  | nil => exact List.nil_merge []
  | cons item items ih =>
    obtain ⟨hfirst, hmore⟩ := List.pairwise_cons.mp h
    have hrest := ih hmore
    unfold mergeByStart at hrest ⊢
    -- The first item starts before every item of the other list.
    cases item with
    | token token =>
      have hbefore : ∀ other ∈ (items.filterMap Item.illegal?).map Item.illegal,
          decide ((Item.token token).span.start ≤ other.span.start) = true := by
        intro other hother
        obtain ⟨report, hreport, rfl⟩ := List.mem_map.mp hother
        obtain ⟨item, hitem, hsome⟩ := List.mem_filterMap.mp hreport
        rw [← Item.eq_illegal_of_illegal? hsome]
        exact decide_eq_true (Nat.le_of_lt (hfirst item hitem))
      show (Item.token token :: (items.filterMap Item.token?).map Item.token).merge
        ((items.filterMap Item.illegal?).map Item.illegal) _ = _
      rw [merge_cons_left hbefore, hrest]
    | illegal report =>
      have hbefore : ∀ other ∈ (items.filterMap Item.token?).map Item.token,
          decide (other.span.start ≤ (Item.illegal report).span.start) = false := by
        intro other hother
        obtain ⟨token, htoken, rfl⟩ := List.mem_map.mp hother
        obtain ⟨item, hitem, hsome⟩ := List.mem_filterMap.mp htoken
        rw [← Item.eq_token_of_token? hsome]
        exact decide_eq_false (Nat.not_le_of_lt (hfirst item hitem))
      show ((items.filterMap Item.token?).map Item.token).merge
        (Item.illegal report :: (items.filterMap Item.illegal?).map Item.illegal) _ = _
      rw [merge_cons_right hbefore, hrest]

/-- **Two lists**: as long as the lines of a source can be numbered, its tokens and its reports
    each follow one another in starts and lines, and no report is of a character within a token.
    Merged by their starts they are the stream, so no item is lost or doubled, and no other
    stream falls into the same two lists. -/
theorem lists_merge_to_stream (source : String)
    (hlines : source.toList.count '\n' ≤ 4294967294) :
    ∃ drained tokens reports, (Lexer.ofSource source).drain = .ok drained ∧
      tokenize source = .ok (tokens, reports) ∧
      (tokens.Pairwise fun first second =>
        first.span.start < second.span.start ∧ first.line ≤ second.line) ∧
      (reports.Pairwise fun first second =>
        first.position.offset < second.position.offset ∧
          first.position.line ≤ second.position.line) ∧
      (∀ token ∈ tokens, ∀ report ∈ reports,
        ¬ (token.span.start ≤ report.position.offset ∧
          report.position.offset < token.span.stop)) ∧
      mergeByStart tokens reports = drained.items ∧
      tokens.length + reports.length = drained.items.length ∧
      ∀ other stream, tokenize other = .ok (tokens, reports) →
        (Lexer.ofSource other).drain = .ok stream → stream.items = drained.items := by
  obtain ⟨drained, hdrain, hitems⟩ := Lexer.exists_drain_ofSource hlines
  have hstarts := pairwise_start_itemsFrom .start source.toList
  have hordered := hstarts.and (pairwise_line_itemsFrom (Position.hasRoom_start hlines))
  have hmerge := mergeByStart_eq hstarts
  refine ⟨drained, _, _, hdrain, tokenize_eq hdrain, ?_⟩
  rw [hitems]
  refine ⟨?_, ?_, ?_, hmerge, Lexer.length_token?_add_illegal? _, ?_⟩
  · apply hordered.filterMap
    intro first second horder token htoken other hother
    rwa [Item.eq_token_of_token? htoken, Item.eq_token_of_token? hother] at horder
  · apply hordered.filterMap
    intro first second horder report hreport other hother
    rwa [Item.eq_illegal_of_illegal? hreport, Item.eq_illegal_of_illegal? hother] at horder
  · intro token htoken report hreport hwithin
    obtain ⟨item, hitem, hsome⟩ := List.mem_filterMap.mp hreport
    rw [Item.eq_illegal_of_illegal? hsome] at hitem
    have happart := apart_of_mem_itemsFrom (Item.mem_of_mem_filterMap_token? htoken) hitem
      (by simp)
    have hbounds := bounds_of_mem_itemsFrom hitem
    simp only [Item.span] at happart hbounds
    omega
  · intro other stream hother hstream
    obtain ⟨htokens, hreports⟩ := eq_of_tokenize hother
    rw [Lexer.items_eq_of_drain hstream, ← hmerge, htokens, hreports,
      mergeByStart_eq (pairwise_start_itemsFrom .start other.toList)]

/-- In `1!` and, below it, `2`, a report stands between two tokens, and merging puts it there. -/
theorem lists_merge_to_stream_report_between :
    (String.ofList ['1', '!', '\n', '2']).toList.count '\n' ≤ 4294967294 ∧
    ∃ tokens reports, tokenize (String.ofList ['1', '!', '\n', '2']) = .ok (tokens, reports) ∧
      tokens.length = 2 ∧ reports.length = 1 ∧
      mergeByStart tokens reports
        = [.token ⟨.integer, .integer 1, 1, 0, 1⟩, .illegal ⟨'!', 1, 1⟩,
            .token ⟨.integer, .integer 2, 2, 3, 4⟩] := by
  have hlines : (String.ofList ['1', '!', '\n', '2']).toList.count '\n' ≤ 4294967294 := by
    rw [String.toList_ofList]
    decide
  have hitems : itemsFrom .start ['1', '!', '\n', '2']
      = [.token ⟨.integer, .integer 1, 1, 0, 1⟩, .illegal ⟨'!', 1, 1⟩,
          .token ⟨.integer, .integer 2, 2, 3, 4⟩] := by
    have hone : Piece.first? ['1', '!', '\n', '2']
        = some ⟨.token .integer, ['1'], ['!', '\n', '2']⟩ := rfl
    have hstray : Piece.first? ['!', '\n', '2'] = some ⟨.illegal '!', ['!'], ['\n', '2']⟩ := rfl
    have hfeed : Piece.first? ['\n', '2'] = some ⟨.lineBreaks, ['\n'], ['2']⟩ := rfl
    have htwo : Piece.first? ['2'] = some ⟨.token .integer, ['2'], []⟩ := rfl
    rw [itemsFrom_of_first? hone, itemsFrom_of_first? hstray, itemsFrom_of_first? hfeed,
      itemsFrom_of_first? htwo, itemsFrom_nil]
    rfl
  obtain ⟨drained, tokens, reports, hdrain, htokenize, -, -, -, hmerge, -⟩ :=
    lists_merge_to_stream _ hlines
  obtain ⟨htokens, hreports⟩ := eq_of_tokenize htokenize
  have hgiven := Lexer.items_eq_of_drain hdrain
  rw [String.toList_ofList, hitems] at hgiven htokens hreports
  refine ⟨hlines, tokens, reports, htokenize, ?_, ?_, ?_⟩
  · rw [htokens]
    rfl
  · rw [hreports]
    rfl
  · rw [hmerge, hgiven]

end ExprScan
