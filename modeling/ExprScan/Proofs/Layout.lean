import ExprScan.Proofs.Seams

/-! # Layout

  Separators may be put between items wherever none stood before. The items
  ahead of the place stay as they are, and those behind it move along with
  the text (`exists_itemsFrom_spaced`).

  The proof follows the pieces of the source up to the place. A piece before
  it stays: what comes next is what came next before, or a separator, and a
  separator ends every item but a comment (`settled_insert`). At the place
  itself separators join with separators, which adds no item
  (`itemsFrom_insert`). Whatever stands behind is only moved.
-/

namespace ExprScan

/-! ### Places outside of items -/

/-- A place that is not strictly inside an item. -/
def Item.LeavesOut (place : Nat) (item : Item) : Prop :=
  ¬ (item.span.start < place ∧ place < item.span.stop)

/-- The item after some text has been put into its source at a place. -/
def Item.spaced (place : Nat) (gap : List Char) (item : Item) : Item :=
  if item.span.stop ≤ place then item
  else item.shift (gap.count '\n') (Text.byteLength gap)

/-- Separators have one byte each, so a text of them can be cut anywhere. -/
theorem AllSeparators.exists_cut {gap : List Char} (h : AllSeparators gap) (bytes : Nat)
    (hbytes : bytes ≤ Text.byteLength gap) :
    ∃ front back, gap = front ++ back ∧ Text.byteLength front = bytes := by
  induction gap generalizing bytes with
  | nil => exact ⟨[], [], rfl, (Nat.le_zero.mp hbytes).symm⟩
  | cons c gap ih =>
    cases bytes with
    | zero => exact ⟨[], c :: gap, rfl, rfl⟩
    | succ bytes =>
      have hsize : c.utf8Size = 1 := by
        rcases eq_of_isSeparator (h c List.mem_cons_self) with rfl | rfl | rfl | rfl <;> rfl
      have htail : AllSeparators gap := fun d hd => h d (List.mem_cons_of_mem c hd)
      rw [Text.byteLength_cons, hsize] at hbytes
      obtain ⟨front, back, rfl, hfront⟩ := ih htail bytes (by omega)
      refine ⟨c :: front, back, rfl, ?_⟩
      rw [Text.byteLength_cons, hsize, hfront, Nat.add_comm]

/-! ### Putting separators in -/

section insert

variable {pos : Position} {gap front text : List Char} {place : Nat}

/-- A text moves the cursor by its lines and bytes. -/
theorem Position.after_eq_shift (pos : Position) (text : List Char) :
    pos.after text = pos.shift (text.count '\n') (Text.byteLength text) := rfl

/-- Separators among separators only move what stands behind them. -/
theorem itemsFrom_insert (hfront : AllSeparators front) (hgap : AllSeparators gap) :
    itemsFrom pos (front ++ (gap ++ text))
      = (itemsFrom pos (front ++ text)).map
          (Item.shift (gap.count '\n') (Text.byteLength gap)) := by
  rw [itemsFrom_append_of_separators pos hfront, itemsFrom_append_of_separators pos hfront,
    itemsFrom_append_of_separators _ hgap, Position.after_eq_shift _ gap, itemsFrom_shift]

/-- All items behind a place are moved. -/
theorem map_spaced_of_le (h : place ≤ pos.offset) :
    (itemsFrom pos text).map (Item.spaced place gap)
      = (itemsFrom pos text).map (Item.shift (gap.count '\n') (Text.byteLength gap)) := by
  apply List.map_congr_left
  intro item hitem
  have hbounds := bounds_of_mem_itemsFrom hitem
  exact if_neg (by omega)

/-- An item does not go on into separators put behind it. Only a comment could,
    and what is put behind a comment ends it. -/
theorem settled_insert {category : Category} {word first second : List Char}
    (hlabels : category.Labels word) (hitem : category.isItem = true)
    (hsettled : Settled word (first ++ second)) (hgap : AllSeparators gap)
    (hcomment : first = [] → category = .token .comment →
      ∀ c, gap.head? = some c → isCommentChar c = false) :
    Settled word (first ++ (gap ++ second)) := by
  cases first with
  | cons d more => exact hsettled
  | nil =>
    cases gap with
    | nil => exact hsettled
    | cons c gap =>
      have hc : isSeparator c = true := hgap c List.mem_cons_self
      apply hlabels.settled_of_separator hitem rfl hc
      intro hkind
      exact hcomment rfl hkind c rfl

/-- A piece that ends at the place or before it stays as it is. -/
theorem itemsFrom_kept {category : Category} {word first second : List Char}
    (hlabels : category.Labels word) (hsettled : Settled word (first ++ second))
    (hgap : AllSeparators gap) (hstop : pos.offset + Text.byteLength word ≤ place)
    (hcomment : first = [] → category = .token .comment →
      ∀ c, gap.head? = some c → isCommentChar c = false) :
    itemsFrom pos (word ++ (first ++ (gap ++ second)))
      = (category.unit pos word).item?.toList.map (Item.spaced place gap)
        ++ itemsFrom (pos.after word) (first ++ (gap ++ second)) := by
  cases hunit : (category.unit pos word).item? with
  | none =>
    have hword := hlabels.allSeparators (Category.isItem_of_item?_eq_none hunit)
    rw [itemsFrom_append_of_separators pos hword]
    rfl
  | some item =>
    have hkind := Category.isItem_of_item? hunit
    have hstays : item.spaced place gap = item := by
      apply if_pos
      rw [hlabels.span_eq hunit]
      exact hstop
    rw [itemsFrom_append hlabels (settled_insert hlabels hkind hsettled hgap hcomment), hunit,
      Option.toList_some, List.map_singleton, hstays]

/-- A place outside of all items that lies before the end of the first piece has only
    separators before it. -/
theorem exists_cut_of_leavesOut {category : Category} {word rest : List Char}
    (hlabels : category.Labels word) (hsettled : Settled word rest) (hlow : pos.offset ≤ place)
    (hhigh : place < pos.offset + Text.byteLength word)
    (houtside : ∀ item ∈ itemsFrom pos (word ++ rest), item.LeavesOut place) :
    ∃ front back, word = front ++ back ∧ AllSeparators front ∧
      pos.offset + Text.byteLength front = place := by
  cases hunit : (category.unit pos word).item? with
  | none =>
    have hword := hlabels.allSeparators (Category.isItem_of_item?_eq_none hunit)
    obtain ⟨front, back, hcut, hlength⟩ := hword.exists_cut (place - pos.offset) (by omega)
    refine ⟨front, back, hcut, ?_, by omega⟩
    intro c hc
    exact hword c (hcut ▸ List.mem_append_left back hc)
  | some item =>
    have hmem : item ∈ itemsFrom pos (word ++ rest) := by
      rw [itemsFrom_append hlabels hsettled, hunit]
      exact List.mem_append_left _ (List.mem_singleton_self item)
    have hstart : ¬ pos.offset < place := by
      intro hinside
      apply houtside item hmem
      rw [hlabels.span_eq hunit]
      exact ⟨hinside, hhigh⟩
    have hnone : AllSeparators [] := by simp [AllSeparators]
    refine ⟨[], word, rfl, hnone, ?_⟩
    rw [Text.byteLength_nil]
    omega

/-- Separators put in at a place outside of all items move the items behind it
    and leave those before it. -/
theorem exists_itemsFrom_spaced (hgap : AllSeparators gap) (hlow : pos.offset ≤ place)
    (hhigh : place ≤ pos.offset + Text.byteLength text)
    (houtside : ∀ item ∈ itemsFrom pos text, item.LeavesOut place)
    (hcomment : ∀ item ∈ itemsFrom pos text, item.isComment = true → item.span.stop = place →
      ∀ c, gap.head? = some c → isCommentChar c = false) :
    ∃ first second, text = first ++ second ∧ pos.offset + Text.byteLength first = place ∧
      itemsFrom pos (first ++ (gap ++ second))
        = (itemsFrom pos text).map (Item.spaced place gap) := by
  induction text using Piece.text_induction generalizing pos with
  | nil =>
    have hnone : AllSeparators [] := by simp [AllSeparators]
    rw [Text.byteLength_nil] at hhigh
    refine ⟨[], [], rfl, by rw [Text.byteLength_nil]; omega, ?_⟩
    rw [itemsFrom_insert hnone hgap, map_spaced_of_le (by omega)]
    rfl
  | piece category word rest hlabels hsettled ih =>
    rw [Text.byteLength_append] at hhigh
    have hitems : itemsFrom pos (word ++ rest) = (category.unit pos word).item?.toList
        ++ itemsFrom (pos.after word) rest := itemsFrom_append hlabels hsettled
    by_cases hstop : pos.offset + Text.byteLength word ≤ place
    · have hrest : ∀ item ∈ itemsFrom (pos.after word) rest,
          item ∈ itemsFrom pos (word ++ rest) := by
        intro item hitem
        rw [hitems]
        exact List.mem_append_right _ hitem
      have hbehind : place ≤ (pos.after word).offset + Text.byteLength rest := by
        rw [Position.offset_after]
        omega
      obtain ⟨first, second, rfl, hfirst, hspaced⟩ := ih hstop hbehind
        (fun item hitem => houtside item (hrest item hitem))
        (fun item hitem => hcomment item (hrest item hitem))
      rw [Position.offset_after] at hfirst
      refine ⟨word ++ first, second, (List.append_assoc _ _ _).symm, ?_, ?_⟩
      · rw [Text.byteLength_append]
        omega
      rw [List.append_assoc, itemsFrom_kept hlabels hsettled hgap hstop, hspaced, hitems,
        List.map_append]
      -- With nothing between a comment and the place, the comment ends there.
      rintro rfl rfl
      have hkind : Category.isItem (.token .comment) = true := rfl
      obtain ⟨item, hunit⟩ := Category.exists_item hkind pos word
      have hspan := hlabels.span_eq hunit
      apply hcomment item
      · rw [hitems, hunit]
        exact List.mem_append_left _ (List.mem_singleton_self item)
      · obtain rfl := Option.some.inj hunit
        rfl
      · rw [hspan, ← hfirst]
        rfl
    · obtain ⟨front, back, rfl, hfront, hplace⟩ :=
        exists_cut_of_leavesOut hlabels hsettled hlow (by omega) houtside
      refine ⟨front, back ++ rest, List.append_assoc _ _ _, hplace, ?_⟩
      rw [itemsFrom_insert hfront hgap, List.append_assoc,
        itemsFrom_append_of_separators pos hfront, map_spaced_of_le]
      rw [Position.offset_after]
      omega

end insert

/-! ### Spaced sources -/

/-- What becomes of an item when separators are put into its source at a place:
    it stays what it is. Before the place it also stays where it is, and behind
    it the item is further on by the lines and bytes of the separators. -/
structure Spaced (place : Nat) (gap : List Char) (item other : Item) : Prop where
  content_eq : other.content = item.content
  parted : item.span.stop ≤ place ∨ place ≤ item.span.start
  stays : item.span.stop ≤ place → other.span = item.span ∧ other.line = item.line
  moves : place ≤ item.span.start →
    other.span = ⟨item.span.start + Text.byteLength gap, item.span.stop + Text.byteLength gap⟩ ∧
    other.line.toNat = item.line.toNat + gap.count '\n'

/-- An item that leaves the place out is parted from it as `Spaced` says. -/
theorem spaced_of_mem {place : Nat} {gap text : List Char} {item : Item}
    (hlines : text.count '\n' + gap.count '\n' ≤ 4294967294)
    (hitem : item ∈ itemsFrom .start text) (houtside : item.LeavesOut place) :
    Spaced place gap item (item.spaced place gap) := by
  have hbounds := bounds_of_mem_itemsFrom hitem
  have hparted : item.span.stop ≤ place ∨ place ≤ item.span.start := by
    unfold Item.LeavesOut at houtside
    omega
  unfold Item.spaced
  by_cases hstop : item.span.stop ≤ place
  · rw [if_pos hstop]
    refine ⟨rfl, hparted, fun _ => ⟨rfl, rfl⟩, ?_⟩
    intro hstart
    omega
  · rw [if_neg hstop]
    refine ⟨Item.content_shift _ _ item, hparted, fun h => absurd h hstop, ?_⟩
    intro _
    exact ⟨Item.span_shift _ _ item, toNat_line_shift _ hlines hitem⟩

/-- **Layout**: separators put into a source at a place outside of all items
    leave the items as they are. Those behind the place move along. Behind a
    comment the separators have to end it. -/
theorem layout_moves_items (source gap : String) (place : Nat)
    (hplace : place ≤ Text.byteLength source.toList)
    (hgap : ∀ c ∈ gap.toList, c = ' ' ∨ c = '\t' ∨ c = '\r' ∨ c = '\n')
    (hlines : source.toList.count '\n' + gap.toList.count '\n' ≤ 4294967294) :
    ∃ drained, (Lexer.ofSource source).drain = .ok drained ∧
      ((∀ item ∈ drained.items, ¬ (item.span.start < place ∧ place < item.span.stop)) →
        (∀ item ∈ drained.items, item.isComment = true → item.span.stop = place →
          ∀ c, gap.toList.head? = some c → c = '\r' ∨ c = '\n') →
        ∃ first second spaced, source = first ++ second ∧ Text.byteLength first.toList = place ∧
          (Lexer.ofSource (first ++ gap ++ second)).drain = .ok spaced ∧
          List.Forall₂ (Spaced place gap.toList) drained.items spaced.items) := by
  have hsource : source.toList.count '\n' ≤ 4294967294 := by omega
  obtain ⟨drained, hdrain, hitems⟩ := Lexer.exists_drain_ofSource hsource
  refine ⟨drained, hdrain, ?_⟩
  rw [hitems]
  intro houtside hcomment
  have hseparators : AllSeparators gap.toList := by
    intro c hc
    rcases hgap c hc with rfl | rfl | rfl | rfl <;> decide
  have hends : ∀ item ∈ itemsFrom .start source.toList, item.isComment = true →
      item.span.stop = place → ∀ c, gap.toList.head? = some c → isCommentChar c = false := by
    intro item hitem hkind hstop c hc
    rcases hcomment item hitem hkind hstop c hc with rfl | rfl <;> decide
  have hhigh : place ≤ Position.start.offset + Text.byteLength source.toList := by
    rw [show Position.start.offset = 0 from rfl, Nat.zero_add]
    exact hplace
  obtain ⟨first, second, hcut, hfirst, hspaced⟩ :=
    exists_itemsFrom_spaced hseparators (Nat.zero_le place) hhigh houtside hends
  have htext : (String.ofList first ++ gap ++ String.ofList second).toList
      = first ++ (gap.toList ++ second) := by
    rw [String.toList_append, String.toList_append, String.toList_ofList, String.toList_ofList,
      List.append_assoc]
  have hcount : (String.ofList first ++ gap ++ String.ofList second).toList.count '\n'
      ≤ 4294967294 := by
    rw [hcut, List.count_append] at hlines
    rw [htext, List.count_append, List.count_append]
    omega
  obtain ⟨spaced, hdrained, hothers⟩ := Lexer.exists_drain_ofSource hcount
  refine ⟨String.ofList first, String.ofList second, spaced, ?_, ?_, hdrained, ?_⟩
  · rw [← String.ofList_append, ← hcut, String.ofList_toList]
  · rw [String.toList_ofList, ← hfirst]
    exact (Nat.zero_add _).symm
  · rw [hothers, htext, hspaced, List.forall₂_map_right_iff, List.forall₂_same]
    intro item hitem
    exact spaced_of_mem hlines hitem (houtside item hitem)

/-- Behind the comment of `1#a` a carriage return and a line feed may be put in. -/
theorem layout_moves_items_comment :
    3 ≤ Text.byteLength (String.ofList ['1', '#', 'a', '\n', '!']).toList ∧
    (∀ c ∈ (String.ofList ['\r', '\n']).toList, c = ' ' ∨ c = '\t' ∨ c = '\r' ∨ c = '\n') ∧
    (String.ofList ['1', '#', 'a', '\n', '!']).toList.count '\n'
      + (String.ofList ['\r', '\n']).toList.count '\n' ≤ 4294967294 ∧
    ∃ drained, (Lexer.ofSource (String.ofList ['1', '#', 'a', '\n', '!'])).drain = .ok drained ∧
      .token ⟨.comment, .text (String.ofList ['#', 'a']), 1, 1, 3⟩ ∈ drained.items ∧
      (∀ item ∈ drained.items, ¬ (item.span.start < 3 ∧ 3 < item.span.stop)) ∧
      (∀ item ∈ drained.items, item.isComment = true → item.span.stop = 3 →
        ∀ c, (String.ofList ['\r', '\n']).toList.head? = some c → c = '\r' ∨ c = '\n') ∧
      ∃ first second spaced,
        String.ofList ['1', '#', 'a', '\n', '!'] = first ++ second ∧
        Text.byteLength first.toList = 3 ∧
        (Lexer.ofSource (first ++ String.ofList ['\r', '\n'] ++ second)).drain = .ok spaced ∧
        List.Forall₂ (Spaced 3 (String.ofList ['\r', '\n']).toList) drained.items
          spaced.items := by
  have hplace : 3 ≤ Text.byteLength (String.ofList ['1', '#', 'a', '\n', '!']).toList := by
    rw [String.toList_ofList]
    decide
  have hgap : ∀ c ∈ (String.ofList ['\r', '\n']).toList,
      c = ' ' ∨ c = '\t' ∨ c = '\r' ∨ c = '\n' := by
    intro c hc
    rw [String.toList_ofList, List.mem_pair] at hc
    exact Or.inr (Or.inr hc)
  have hlines : (String.ofList ['1', '#', 'a', '\n', '!']).toList.count '\n'
      + (String.ofList ['\r', '\n']).toList.count '\n' ≤ 4294967294 := by
    rw [String.toList_ofList, String.toList_ofList]
    decide
  have hitems : itemsFrom .start ['1', '#', 'a', '\n', '!']
      = [.token ⟨.integer, .integer 1, 1, 0, 1⟩,
          .token ⟨.comment, .text (String.ofList ['#', 'a']), 1, 1, 3⟩, .illegal ⟨'!', 2, 4⟩] := by
    have hone : Piece.first? ['1', '#', 'a', '\n', '!']
        = some ⟨.token .integer, ['1'], ['#', 'a', '\n', '!']⟩ := rfl
    have hmark : Piece.first? ['#', 'a', '\n', '!']
        = some ⟨.token .comment, ['#', 'a'], ['\n', '!']⟩ := rfl
    have hfeed : Piece.first? ['\n', '!'] = some ⟨.lineBreaks, ['\n'], ['!']⟩ := rfl
    have hstray : Piece.first? ['!'] = some ⟨.illegal '!', ['!'], []⟩ := rfl
    rw [itemsFrom_of_first? hone, itemsFrom_of_first? hmark, itemsFrom_of_first? hfeed,
      itemsFrom_of_first? hstray, itemsFrom_nil]
    rfl
  obtain ⟨drained, hdrain, hmoved⟩ := layout_moves_items
    (String.ofList ['1', '#', 'a', '\n', '!']) (String.ofList ['\r', '\n']) 3 hplace hgap hlines
  have hgiven := Lexer.items_eq_of_drain hdrain
  rw [String.toList_ofList, hitems] at hgiven
  have houtside : ∀ item ∈ drained.items, ¬ (item.span.start < 3 ∧ 3 < item.span.stop) := by
    rw [hgiven]
    decide
  have hends : ∀ item ∈ drained.items, item.isComment = true → item.span.stop = 3 →
      ∀ c, (String.ofList ['\r', '\n']).toList.head? = some c → c = '\r' ∨ c = '\n' := by
    intro item _ _ _ c hc
    rw [String.toList_ofList] at hc
    exact Or.inl (Option.some.inj hc).symm
  refine ⟨hplace, hgap, hlines, drained, hdrain, ?_, houtside, hends, hmoved houtside hends⟩
  rw [hgiven]
  simp

end ExprScan
