import ExprScan.Proofs.Stream

/-! # Text at the end

  Text that is put behind a source leaves all items of the source as they
  are, but the one that touches its end. That one may grow, or become part of
  a longer one (`exists_shared`).

  A piece with more of the source behind it is settled by the next character,
  which stays. The last piece is the start of whatever piece there is
  afterwards (`Category.Labels.le_stop`), so nothing new ends within the
  source.
-/

namespace ExprScan

/-- What two streams share: the items of the first that end before a limit.
    The first has at most one more item, which ends at the limit, and what
    the second has instead ends no earlier. -/
structure Shared (limit : Nat) (short long kept : List Item) : Prop where
  ends_before : ∀ item ∈ kept, item.span.stop < limit
  exists_last : ∃ last, short = kept ++ last ∧ last.length ≤ 1 ∧
    ∀ item ∈ last, item.span.stop = limit
  exists_more : ∃ more, long = kept ++ more ∧ ∀ item ∈ more, limit ≤ item.span.stop

namespace Shared

variable {limit : Nat} {short long kept before : List Item}

theorem append_left (h : Shared limit short long kept)
    (hbefore : ∀ item ∈ before, item.span.stop < limit) :
    Shared limit (before ++ short) (before ++ long) (before ++ kept) := by
  obtain ⟨last, hshort, hlast⟩ := h.exists_last
  obtain ⟨more, hlong, hmore⟩ := h.exists_more
  refine ⟨?_, ⟨last, ?_, hlast⟩, ⟨more, ?_, hmore⟩⟩
  · intro item hitem
    rcases List.mem_append.mp hitem with hitem | hitem
    · exact hbefore item hitem
    · exact h.ends_before item hitem
  · rw [hshort, List.append_assoc]
  · rw [hlong, List.append_assoc]

/-- The shared items are those that end before the limit. -/
theorem filter_append {others : List Item} (h : Shared limit short long kept)
    (hothers : ∀ item ∈ others, limit ≤ item.span.stop) :
    ((kept ++ others).filter fun item => decide (item.span.stop < limit)) = kept := by
  have hkept : (kept.filter fun item => decide (item.span.stop < limit)) = kept := by
    rw [List.filter_eq_self]
    intro item hitem
    exact decide_eq_true (h.ends_before item hitem)
  have hnone : (others.filter fun item => decide (item.span.stop < limit)) = [] := by
    rw [List.filter_eq_nil_iff]
    intro item hitem
    have hstop := hothers item hitem
    rw [decide_eq_true_eq]
    omega
  rw [List.filter_append, hkept, hnone, List.append_nil]

theorem filter_short (h : Shared limit short long kept) :
    (short.filter fun item => decide (item.span.stop < limit)) = kept := by
  obtain ⟨last, hshort, -, hlast⟩ := h.exists_last
  rw [hshort]
  apply h.filter_append
  intro item hitem
  exact Nat.le_of_eq (hlast item hitem).symm

theorem filter_long (h : Shared limit short long kept) :
    (long.filter fun item => decide (item.span.stop < limit)) = kept := by
  obtain ⟨more, hlong, hmore⟩ := h.exists_more
  rw [hlong]
  exact h.filter_append hmore

end Shared

/-- No item ends within a text that looks like a piece at the start. -/
theorem Category.Labels.le_stop {category : Category} {start text : List Char}
    {pos : Position} {item : Item} (h : category.Labels start) (hstands : start <+: text)
    (hitem : item ∈ itemsFrom pos text) :
    pos.offset + Text.byteLength start ≤ item.span.stop := by
  cases hfirst : Piece.first? text with
  | none =>
    cases text with
    | nil => simp at hitem
    | cons c more => simp [Piece.first?] at hfirst
  | some piece =>
    have hlabels := Piece.labels_of_first? hfirst
    have hlength : Text.byteLength start ≤ Text.byteLength piece.text := by
      obtain ⟨tail, htail⟩ := Piece.start_of_labels h hstands hfirst
      rw [← htail, Text.byteLength_append]
      omega
    rw [← Piece.text_append_rest hfirst,
      itemsFrom_append hlabels (Piece.settled_of_first? hfirst)] at hitem
    rcases List.mem_append.mp hitem with hhead | htail
    · rw [hlabels.span_eq (Option.mem_toList.mp hhead)]
      show pos.offset + Text.byteLength start ≤ pos.offset + Text.byteLength piece.text
      omega
    · have hbounds := bounds_of_mem_itemsFrom htail
      rw [Position.offset_after] at hbounds
      omega

/-- Text put behind a text leaves the items that end before it. -/
theorem exists_shared (pos : Position) (first second : List Char) :
    ∃ kept, Shared (pos.offset + Text.byteLength first) (itemsFrom pos first)
      (itemsFrom pos (first ++ second)) kept := by
  induction first using Piece.text_induction generalizing pos with
  | nil =>
    refine ⟨[], by simp, ⟨[], by simp, by simp, by simp⟩, ⟨_, rfl, ?_⟩⟩
    intro item hitem
    have hbounds := bounds_of_mem_itemsFrom hitem
    rw [Text.byteLength_nil]
    omega
  | piece category text rest hlabels hsettled ih =>
    cases rest with
    | nil =>
      -- The last piece: with text behind it, it may be part of a longer one.
      have hlast : itemsFrom pos (text ++ []) = (category.unit pos text).item?.toList := by
        rw [itemsFrom_append hlabels hsettled, itemsFrom_nil, List.append_nil]
      rw [hlast]
      refine ⟨[], by simp, ⟨_, rfl, ?_, ?_⟩, ⟨_, rfl, ?_⟩⟩
      · cases (category.unit pos text).item? <;> simp
      · intro item hitem
        rw [hlabels.span_eq (Option.mem_toList.mp hitem), List.append_nil]
      · intro item hitem
        rw [List.append_nil] at hitem ⊢
        exact hlabels.le_stop (List.prefix_append text second) hitem
    | cons c more =>
      -- The character behind the piece stays, so the piece does too.
      have hstays : Settled text (c :: more ++ second) := hsettled
      obtain ⟨kept, hkept⟩ := ih (pos.after text)
      have hlimit : (pos.after text).offset + Text.byteLength (c :: more)
          = pos.offset + Text.byteLength (text ++ c :: more) := by
        rw [Position.offset_after, Text.byteLength_append, Nat.add_assoc]
      rw [hlimit] at hkept
      rw [List.append_assoc, itemsFrom_append hlabels hsettled,
        itemsFrom_append hlabels hstays]
      refine ⟨_, hkept.append_left ?_⟩
      intro item hitem
      have hsize := c.utf8Size_pos
      rw [hlabels.span_eq (Option.mem_toList.mp hitem), Text.byteLength_append,
        Text.byteLength_cons]
      show pos.offset + Text.byteLength text < _
      omega

/-- **Lookahead**: text appended to a source leaves all items that end before
    the end of the source. The source has at most one other item, which
    touches its end, and all items that appear instead end there or later. -/
theorem appending_leaves_earlier_items (first second : String)
    (hlines : (first ++ second).toList.count '\n' ≤ 4294967294) :
    ∃ short long, (Lexer.ofSource first).drain = .ok short ∧
      (Lexer.ofSource (first ++ second)).drain = .ok long ∧
      (short.items.filter fun item =>
          decide (item.span.stop < Text.byteLength first.toList))
        = (long.items.filter fun item =>
            decide (item.span.stop < Text.byteLength first.toList)) ∧
      ∃ kept, Shared (Text.byteLength first.toList) short.items long.items kept := by
  rw [String.toList_append] at hlines
  have hfirst : first.toList.count '\n' ≤ 4294967294 := by
    rw [List.count_append] at hlines
    omega
  rw [← String.toList_append] at hlines
  obtain ⟨short, hshort, hitems⟩ := Lexer.exists_drain_ofSource hfirst
  obtain ⟨long, hlong, hmore⟩ := Lexer.exists_drain_ofSource hlines
  obtain ⟨kept, hkept⟩ := exists_shared .start first.toList second.toList
  rw [← String.toList_append, ← hitems, ← hmore,
    show Position.start.offset = 0 from rfl, Nat.zero_add] at hkept
  refine ⟨short, long, hshort, hlong, ?_, kept, hkept⟩
  rw [hkept.filter_short, hkept.filter_long]

/-- With `2<` behind it, `a1` still has the report of `a`. -/
theorem appending_leaves_earlier_items_number :
    (String.ofList ['a', '1'] ++ String.ofList ['2', '<']).toList.count '\n' ≤ 4294967294 ∧
    ∃ short long, (Lexer.ofSource (String.ofList ['a', '1'])).drain = .ok short ∧
      (Lexer.ofSource (String.ofList ['a', '1'] ++ String.ofList ['2', '<'])).drain = .ok long ∧
      (short.items.filter fun item => decide (item.span.stop < 2))
        = long.items.filter fun item => decide (item.span.stop < 2) := by
  have hlines : (String.ofList ['a', '1'] ++ String.ofList ['2', '<']).toList.count '\n'
      ≤ 4294967294 := by
    rw [String.toList_append, String.toList_ofList, String.toList_ofList]
    decide
  obtain ⟨short, long, hshort, hlong, hsame, -⟩ :=
    appending_leaves_earlier_items (String.ofList ['a', '1']) (String.ofList ['2', '<']) hlines
  rw [String.toList_ofList] at hsame
  exact ⟨hlines, short, long, hshort, hlong, hsame⟩

end ExprScan
