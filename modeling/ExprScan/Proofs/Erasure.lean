import ExprScan.Proofs.Stream

/-! # Erasing items

  Items can be taken out of a source by writing spaces over their bytes. The
  others stay as they are: their kinds, values, lines and bytes do not depend
  on what the erased ones were.

  The proof goes over the pieces of the source. An erased item becomes a gap
  of the same length on the same line (`itemsFrom_overwrite`). An item that
  stays must not grow into the spaces behind it (`settled_overwrite`). Only a
  comment could, and what stands behind a comment ends the line, so it is no
  item that could have been erased (`Marks.not_isSeparator`).
-/

namespace ExprScan

/-! ### Writing spaces over a text -/

/-- Whether one of some items covers the byte at an offset. -/
def isCovered (items : List Item) (offset : Nat) : Bool :=
  items.any fun item => decide (item.span.start ≤ offset) && decide (offset < item.span.stop)

/-- The text from an offset on, with spaces for the bytes of the characters
    that start at marked offsets. -/
def overwrite (marked : Nat → Bool) : Nat → List Char → List Char
  | _, [] => []
  | offset, c :: text =>
    (if marked offset then List.replicate c.utf8Size ' ' else [c]) ++
      overwrite marked (offset + c.utf8Size) text

/-- A source with spaces for the bytes of some items. -/
def erase (items : List Item) (source : String) : String :=
  String.ofList (overwrite (isCovered items) 0 source.toList)

section overwrite

variable {marked : Nat → Bool}

theorem overwrite_append (offset : Nat) (first second : List Char) :
    overwrite marked offset (first ++ second)
      = overwrite marked offset first ++
          overwrite marked (offset + Text.byteLength first) second := by
  induction first generalizing offset with
  | nil => simp [overwrite]
  | cons c first ih =>
    rw [List.cons_append, overwrite, overwrite, ih, Text.byteLength_cons, List.append_assoc,
      Nat.add_assoc]

theorem overwrite_of_marked {offset : Nat} {text : List Char}
    (h : ∀ o, offset ≤ o → o < offset + Text.byteLength text → marked o = true) :
    overwrite marked offset text = List.replicate (Text.byteLength text) ' ' := by
  induction text generalizing offset with
  | nil => simp [overwrite]
  | cons c text ih =>
    have hc := c.utf8Size_pos
    rw [Text.byteLength_cons] at h ⊢
    have hhead : marked offset = true := h offset (Nat.le_refl _) (by omega)
    have htail : ∀ o, offset + c.utf8Size ≤ o →
        o < offset + c.utf8Size + Text.byteLength text → marked o = true := by
      intro o hlow hhigh
      exact h o (by omega) (by omega)
    rw [overwrite, if_pos hhead, ih htail, ← List.replicate_add]

theorem overwrite_of_unmarked {offset : Nat} {text : List Char}
    (h : ∀ o, offset ≤ o → o < offset + Text.byteLength text → marked o = false) :
    overwrite marked offset text = text := by
  induction text generalizing offset with
  | nil => rfl
  | cons c text ih =>
    have hc := c.utf8Size_pos
    rw [Text.byteLength_cons] at h
    have hhead : marked offset = false := h offset (Nat.le_refl _) (by omega)
    have htail : ∀ o, offset + c.utf8Size ≤ o →
        o < offset + c.utf8Size + Text.byteLength text → marked o = false := by
      intro o hlow hhigh
      exact h o (by omega) (by omega)
    rw [overwrite, hhead, ih htail]
    rfl

theorem head?_overwrite (offset : Nat) (c : Char) (text : List Char) :
    (overwrite marked offset (c :: text)).head? = some (if marked offset then ' ' else c) := by
  unfold overwrite
  by_cases hmarked : marked offset = true
  · obtain ⟨size, hsize⟩ := Nat.exists_eq_succ_of_ne_zero (Nat.ne_of_gt c.utf8Size_pos)
    rw [if_pos hmarked, if_pos hmarked, hsize, List.replicate_succ]
    rfl
  · rw [if_neg hmarked, if_neg hmarked]
    rfl

/-- Writing spaces over a text adds no line. -/
theorem count_overwrite_le (offset : Nat) (text : List Char) :
    (overwrite marked offset text).count '\n' ≤ text.count '\n' := by
  induction text generalizing offset with
  | nil => simp [overwrite]
  | cons c text ih =>
    have htail := ih (offset + c.utf8Size)
    rw [overwrite, List.count_append, List.count_cons]
    by_cases hmarked : marked offset = true
    · rw [if_pos hmarked, List.count_replicate, if_neg (by decide)]
      omega
    · rw [if_neg hmarked, List.count_singleton]
      omega

end overwrite

/-- Spaces that take up the bytes of a text without a line break move the
    cursor as the text does. -/
theorem Position.after_replicate {pos : Position} {text : List Char} (h : '\n' ∉ text) :
    pos.after (List.replicate (Text.byteLength text) ' ') = pos.after text := by
  have hlength : ∀ size, Text.byteLength (List.replicate size ' ') = size := by
    intro size
    induction size with
    | zero => rfl
    | succ size ih =>
      rw [List.replicate_succ, Text.byteLength_cons, ih, Nat.add_comm]
      rfl
  have hfeed : '\n' ∉ List.replicate (Text.byteLength text) ' ' := by
    intro hmem
    exact absurd (List.eq_of_mem_replicate hmem) (by decide)
  rw [after_of_lineFeed_notMem h, after_of_lineFeed_notMem hfeed, hlength]

/-! ### Marks on items -/

/-- Behind a cursor, what is marked are the bytes of the erased items. -/
def Marks (marked : Nat → Bool) (erased : Item → Bool) (pos : Position) (text : List Char) :
    Prop :=
  ∀ offset, pos.offset ≤ offset →
    marked offset = isCovered ((itemsFrom pos text).filter erased) offset

theorem isCovered_append (first second : List Item) (offset : Nat) :
    isCovered (first ++ second) offset = (isCovered first offset || isCovered second offset) :=
  List.any_append

/-- The items behind a cursor cover nothing ahead of it. -/
theorem isCovered_ahead {pos : Position} {text : List Char} {erased : Item → Bool}
    {offset : Nat} (h : offset < pos.offset) :
    isCovered ((itemsFrom pos text).filter erased) offset = false := by
  unfold isCovered
  rw [List.any_eq_false]
  intro item hitem
  have hbounds := bounds_of_mem_itemsFrom (List.mem_filter.mp hitem).1
  simp only [Bool.and_eq_true, decide_eq_true_eq]
  omega

namespace Marks

variable {marked : Nat → Bool} {erased : Item → Bool} {pos : Position}
  {category : Category} {text rest : List Char}

/-- The bytes of a piece are marked together, and the marks behind it are
    those of the rest. -/
theorem piece (h : Marks marked erased pos (text ++ rest)) (hlabels : category.Labels text)
    (hsettled : Settled text rest) :
    (∀ o, pos.offset ≤ o → o < pos.offset + Text.byteLength text →
      marked o = (category.unit pos text).item?.any erased) ∧
    Marks marked erased (pos.after text) rest := by
  have hsplit : ∀ o, pos.offset ≤ o → marked o
      = (isCovered ((category.unit pos text).item?.toList.filter erased) o ||
          isCovered ((itemsFrom (pos.after text) rest).filter erased) o) := by
    intro o ho
    rw [h o ho, itemsFrom_append hlabels hsettled, List.filter_append, isCovered_append]
  have hhere : ∀ o, isCovered ((category.unit pos text).item?.toList.filter erased) o
      = ((category.unit pos text).item?.any erased &&
          (decide (pos.offset ≤ o) && decide (o < pos.offset + Text.byteLength text))) := by
    intro o
    cases hitem : (category.unit pos text).item? with
    | none => rfl
    | some item =>
      cases herased : erased item <;>
        simp [isCovered, herased, hlabels.span_eq hitem]
  -- On the piece only its own item counts, and behind it only the others do.
  constructor
  · intro o hlow hhigh
    have hbehind : o < (pos.after text).offset := hhigh
    rw [hsplit o hlow, hhere, isCovered_ahead hbehind]
    simp [hlow, hhigh]
  · intro o hlow
    have hlow : pos.offset + Text.byteLength text ≤ o := hlow
    have hpast : ¬ o < pos.offset + Text.byteLength text := by omega
    rw [hsplit o (by omega), hhere]
    simp [hpast]

/-- No separator is marked. -/
theorem not_isSeparator {c : Char} {more : List Char}
    (h : Marks marked erased pos (c :: more)) (hmarked : marked pos.offset = true) :
    isSeparator c = false := by
  rw [Bool.eq_false_iff]
  intro hc
  have hsize := c.utf8Size_pos
  have hahead : pos.offset < (pos.after [c]).offset := by
    simp only [Position.offset_after, Text.byteLength_cons, Text.byteLength_nil]
    omega
  rw [h pos.offset (Nat.le_refl _), itemsFrom_cons_of_isSeparator pos hc,
    isCovered_ahead hahead] at hmarked
  exact Bool.false_ne_true hmarked

end Marks

/-- An item that stays does not grow into the spaces behind it. -/
theorem settled_overwrite {marked : Nat → Bool} {erased : Item → Bool} {pos : Position}
    {category : Category} {text rest : List Char} (hlabels : category.Labels text)
    (hitem : category.isItem = true) (hsettled : Settled text rest)
    (hmarks : Marks marked erased pos rest) :
    Settled text (overwrite marked pos.offset rest) := by
  cases rest with
  | nil =>
    intro c hc
    simp [overwrite] at hc
  | cons c more =>
    by_cases hmarked : marked pos.offset = true
    · have hblank : (overwrite marked pos.offset (c :: more)).head? = some ' ' := by
        rw [head?_overwrite, if_pos hmarked]
      apply hlabels.settled_of_separator hitem hblank (by decide)
      rintro rfl
      -- What stands behind a comment is a separator, and no separator is marked.
      have hcomment : IsComment text := hlabels.spells (by simp)
      have hends := hsettled.not_isCommentChar hcomment rfl
      have hseparator : isSeparator c = true := by
        simp only [isCommentChar, Bool.and_eq_false_iff, bne_eq_false_iff_eq] at hends
        rcases hends with rfl | rfl <;> decide
      rw [hmarks.not_isSeparator hmarked] at hseparator
      exact absurd hseparator Bool.false_ne_true
    · intro d hd
      rw [head?_overwrite, if_neg hmarked] at hd
      exact hsettled d hd

/-- Spaces in the place of an item are a gap as long as it was, on the same
    line. -/
theorem Category.Labels.itemsFrom_replicate {category : Category} {text : List Char}
    (h : category.Labels text) (hitem : category.isItem = true) (pos : Position)
    (rest : List Char) :
    itemsFrom pos (List.replicate (Text.byteLength text) ' ' ++ rest)
      = itemsFrom (pos.after text) rest := by
  have hgap : AllSeparators (List.replicate (Text.byteLength text) ' ') := by
    intro c hc
    rw [List.eq_of_mem_replicate hc]
    decide
  have hfeed : '\n' ∉ text := by
    apply h.lineFeed_notMem
    rintro rfl
    simp [isItem] at hitem
  rw [itemsFrom_append_of_separators pos hgap, Position.after_replicate hfeed]

/-- Writing spaces over items takes them out of the stream and leaves the
    others as they are. -/
theorem itemsFrom_overwrite {marked : Nat → Bool} {erased : Item → Bool} {pos : Position}
    {text : List Char} (hmarks : Marks marked erased pos text) :
    itemsFrom pos (overwrite marked pos.offset text)
      = (itemsFrom pos text).filter fun item => !erased item := by
  induction text using Piece.text_induction generalizing pos with
  | nil => simp [overwrite]
  | piece category text rest hlabels hsettled ih =>
    obtain ⟨hhere, hbehind⟩ := hmarks.piece hlabels hsettled
    have hrest := ih hbehind
    rw [Position.offset_after] at hrest
    rw [overwrite_append]
    cases hitem : (category.unit pos text).item? with
    | none =>
      -- Separators stay where they are, but they may now join with others.
      have hgap := hlabels.allSeparators (Category.isItem_of_item?_eq_none hitem)
      rw [hitem] at hhere
      rw [overwrite_of_unmarked hhere, itemsFrom_append_of_separators pos hgap,
        itemsFrom_append_of_separators pos hgap, hrest]
    | some item =>
      have hkind := Category.isItem_of_item? hitem
      have hmarked : ∀ o, pos.offset ≤ o → o < pos.offset + Text.byteLength text →
          marked o = erased item := by
        rw [hitem] at hhere
        exact hhere
      rw [itemsFrom_append hlabels hsettled, hitem, List.filter_append, ← hrest]
      cases herased : erased item with
      | true =>
        rw [herased] at hmarked
        rw [overwrite_of_marked hmarked, hlabels.itemsFrom_replicate hkind]
        simp [herased]
      | false =>
        have hstays := settled_overwrite hlabels hkind hsettled hbehind
        rw [Position.offset_after] at hstays
        rw [herased] at hmarked
        rw [overwrite_of_unmarked hmarked, itemsFrom_append hlabels hstays, hitem]
        simp [herased]

/-! ### Bytes -/

theorem Text.utf8_replicate (size : Nat) :
    utf8 (List.replicate size ' ') = List.replicate size 32 := by
  induction size with
  | zero => rfl
  | succ size ih =>
    show String.utf8EncodeChar ' ' ++ utf8 (List.replicate size ' ') = _
    rw [ih]
    rfl

/-- Over bytes that are marked together, writing spaces works byte for byte. -/
theorem utf8_overwrite_of_together {marked : Nat → Bool} {offset : Nat} {text : List Char}
    {together : Bool}
    (h : ∀ o, offset ≤ o → o < offset + Text.byteLength text → marked o = together) :
    Text.utf8 (overwrite marked offset text)
      = (Text.utf8 text).mapIdx fun i byte => if marked (offset + i) then 32 else byte := by
  have hmarked : ∀ i, i < (Text.utf8 text).length → marked (offset + i) = together := by
    intro i hi
    rw [Text.length_utf8] at hi
    exact h (offset + i) (by omega) (by omega)
  cases together with
  | true =>
    rw [overwrite_of_marked h, Text.utf8_replicate, ← Text.length_utf8]
    symm
    rw [List.mapIdx_eq_replicate_iff]
    intro i hi
    rw [hmarked i hi, if_pos rfl]
  | false =>
    rw [overwrite_of_unmarked h]
    symm
    rw [List.mapIdx_eq_iff]
    intro i
    by_cases hi : i < (Text.utf8 text).length
    · rw [List.getElem?_eq_getElem hi, Option.map_some, hmarked i hi]
      rfl
    · rw [List.getElem?_eq_none (by omega)]
      rfl

/-- Writing spaces over items works byte for byte. -/
theorem utf8_overwrite {marked : Nat → Bool} {erased : Item → Bool} {pos : Position}
    {text : List Char} (hmarks : Marks marked erased pos text) :
    Text.utf8 (overwrite marked pos.offset text)
      = (Text.utf8 text).mapIdx fun i byte => if marked (pos.offset + i) then 32 else byte := by
  induction text using Piece.text_induction generalizing pos with
  | nil => rfl
  | piece category text rest hlabels hsettled ih =>
    obtain ⟨hhere, hbehind⟩ := hmarks.piece hlabels hsettled
    have hrest := ih hbehind
    rw [Position.offset_after] at hrest
    rw [overwrite_append, Text.utf8_append, Text.utf8_append, List.mapIdx_append,
      utf8_overwrite_of_together hhere, hrest, Text.length_utf8]
    simp only [Nat.add_assoc, Nat.add_comm (Text.byteLength text)]

/-! ### Erased sources -/

theorem marks_start (erased : Item → Bool) (source : String) :
    Marks (isCovered ((itemsFrom .start source.toList).filter erased)) erased .start
      source.toList := by
  intro offset _
  rfl

/-- Erasing items writes a space over each of their bytes and over no other. -/
theorem bytes_erase (erased : Item → Bool) (source : String) :
    (erase ((itemsFrom .start source.toList).filter erased) source).toByteArray.data.toList
      = source.toByteArray.data.toList.mapIdx fun offset byte =>
          if isCovered ((itemsFrom .start source.toList).filter erased) offset then 32
          else byte := by
  have hbytes := utf8_overwrite (marks_start erased source)
  rw [show Position.start.offset = 0 from rfl] at hbytes
  simp only [Nat.zero_add] at hbytes
  rw [Text.toList_data_toByteArray, Text.toList_data_toByteArray, erase, String.toList_ofList]
  exact hbytes

/-- The stream of an erased source is the stream of the source without the
    erased items. -/
theorem exists_drain_erase {source : String} (hlines : source.toList.count '\n' ≤ 4294967294)
    (erased : Item → Bool) :
    ∃ left, (Lexer.ofSource
        (erase ((itemsFrom .start source.toList).filter erased) source)).drain = .ok left ∧
      left.items = (itemsFrom .start source.toList).filter fun item => !erased item := by
  have hfits : (erase ((itemsFrom .start source.toList).filter erased) source).toList.count '\n'
      ≤ 4294967294 := by
    rw [erase, String.toList_ofList]
    exact Nat.le_trans (count_overwrite_le 0 source.toList) hlines
  obtain ⟨left, hleft, hitems⟩ := Lexer.exists_drain_ofSource hfits
  refine ⟨left, hleft, ?_⟩
  rw [hitems, erase, String.toList_ofList]
  exact itemsFrom_overwrite (marks_start erased source)

/-- **Erasure**: writing spaces over the bytes of any items of a source takes
    these items out of its stream, and the others stay exactly as they are.
    Without its comments a source has the stream that leaves comments out.
    Without its illegal characters it has no errors and the same tokens. -/
theorem erasing_leaves_others (source : String)
    (hlines : source.toList.count '\n' ≤ 4294967294) :
    ∃ drained, (Lexer.ofSource source).drain = .ok drained ∧
      (∀ erased : Item → Bool,
        (erase (drained.items.filter erased) source).toByteArray.data.toList
          = source.toByteArray.data.toList.mapIdx (fun offset byte =>
              if isCovered (drained.items.filter erased) offset then 32 else byte) ∧
        ∃ left, (Lexer.ofSource (erase (drained.items.filter erased) source)).drain = .ok left ∧
          left.items = drained.items.filter fun item => !erased item) ∧
      (∃ left,
        (Lexer.ofSource (erase (drained.items.filter Item.isComment) source)).drain = .ok left ∧
        (Lexer.ofSource source).withoutComments = .ok (left.items, drained.events)) ∧
      ∃ tokens reports, tokenize source = .ok (tokens, reports) ∧
        tokenize (erase (drained.items.filter fun item => item.illegal?.isSome) source)
          = .ok (tokens, []) := by
  obtain ⟨drained, hdrain, hitems⟩ := Lexer.exists_drain_ofSource hlines
  have herase := exists_drain_erase hlines
  rw [← hitems] at herase
  refine ⟨drained, hdrain, ?_, ?_, _, _, tokenize_eq hdrain, ?_⟩
  · intro erased
    refine ⟨?_, herase erased⟩
    rw [hitems]
    exact bytes_erase erased source
  · obtain ⟨left, hleft, hkept⟩ := herase Item.isComment
    refine ⟨left, hleft, ?_⟩
    rw [Lexer.withoutComments, hdrain, hkept]
    rfl
  · obtain ⟨left, hleft, hkept⟩ := herase fun item => item.illegal?.isSome
    rw [tokenize_eq hleft, hkept]
    congr 2
    · rw [List.filterMap_filter]
      congr
      funext item
      cases item <;> rfl
    · rw [List.filterMap_filter, List.filterMap_eq_nil_iff]
      intro item _
      cases item <;> rfl

/-- The source `!1#a` without its comment. -/
theorem erasing_leaves_others_comment :
    (String.ofList ['!', '1', '#', 'a']).toList.count '\n' ≤ 4294967294 ∧
    ∃ drained left, (Lexer.ofSource (String.ofList ['!', '1', '#', 'a'])).drain = .ok drained ∧
      (Lexer.ofSource (erase (drained.items.filter Item.isComment)
        (String.ofList ['!', '1', '#', 'a']))).drain = .ok left ∧
      left.items = drained.items.filter fun item => !item.isComment := by
  have hlines : (String.ofList ['!', '1', '#', 'a']).toList.count '\n' ≤ 4294967294 := by
    rw [String.toList_ofList]
    decide
  obtain ⟨drained, hdrain, herased, -⟩ :=
    erasing_leaves_others (String.ofList ['!', '1', '#', 'a']) hlines
  obtain ⟨-, left, hleft, hitems⟩ := herased Item.isComment
  exact ⟨hlines, drained, left, hdrain, hleft, hitems⟩

end ExprScan
