import ExprScan.Proofs.Coverage
import Mathlib.Data.List.Forall2

/-! # Lines scanned apart

  A line feed is a seam: what stands before it and what stands behind it are
  scanned as if each were a source of its own. No item crosses a line feed,
  whatever the text before it ends with (`settled_lineFeed`), and where a text
  stands does not matter to its items except for their places
  (`itemsFrom_shift`). So the stream of two texts with a line feed between
  them is the stream of the first, followed by that of the second with its
  places moved down (`itemsFrom_seam`).

  By induction over the lines of a file the same holds for any number of them
  (`itemsFrom_intercalate`).
-/

namespace ExprScan

/-! ### Moving things along -/

/-- The place a number of lines and bytes further on. -/
def Position.shift (pos : Position) (lines bytes : Nat) : Position :=
  ⟨pos.line + UInt32.ofNat lines, pos.offset + bytes⟩

namespace Item

/-- The item a number of lines and bytes further on. -/
def shift (lines bytes : Nat) : Item → Item
  | .token t =>
    .token ⟨t.kind, t.value, t.line + UInt32.ofNat lines,
      t.span.start + bytes, t.span.stop + bytes⟩
  | .illegal report => .illegal ⟨report.character, report.position.shift lines bytes⟩

/-- What an item is, wherever it stands: the kind and value of a token, or the
    illegal character. -/
def content : Item → (Kind × Value) ⊕ Char
  | .token t => .inl (t.kind, t.value)
  | .illegal report => .inr report.character

theorem content_shift (lines bytes : Nat) (item : Item) :
    (item.shift lines bytes).content = item.content := by
  cases item <;> rfl

theorem line_shift (lines bytes : Nat) (item : Item) :
    (item.shift lines bytes).line = item.line + UInt32.ofNat lines := by
  cases item <;> rfl

theorem span_shift (lines bytes : Nat) (item : Item) :
    (item.shift lines bytes).span = ⟨item.span.start + bytes, item.span.stop + bytes⟩ := by
  cases item with
  | token t => rfl
  | illegal report => simp [shift, span, Position.shift, Nat.add_right_comm]

end Item

theorem Position.after_shift {pos : Position} {lines bytes : Nat} {text : List Char} :
    (pos.shift lines bytes).after text = (pos.after text).shift lines bytes := by
  unfold shift after
  simp only [UInt32.add_assoc, UInt32.add_comm (UInt32.ofNat lines), Nat.add_assoc,
    Nat.add_comm bytes]

theorem Category.item?_unit_shift (category : Category) (pos : Position) (lines bytes : Nat)
    (text : List Char) :
    (category.unit (pos.shift lines bytes) text).item?
      = (category.unit pos text).item?.map (Item.shift lines bytes) := by
  cases category with
  | blank => rfl
  | lineBreaks => rfl
  | token kind =>
    simp only [unit, Scanned.item?, Option.map_some, Item.shift, Position.shift]
    rw [Nat.add_right_comm]
  | illegal c => rfl

/-- Where a text stands moves its items along and changes nothing else. -/
theorem itemsFrom_shift (pos : Position) (lines bytes : Nat) (text : List Char) :
    itemsFrom (pos.shift lines bytes) text
      = (itemsFrom pos text).map (Item.shift lines bytes) := by
  induction text using Piece.text_induction generalizing pos with
  | nil => simp
  | piece category text rest hlabels hsettled ih =>
    rw [itemsFrom_append hlabels hsettled, itemsFrom_append hlabels hsettled, List.map_append,
      Category.item?_unit_shift, Option.toList_map, Position.after_shift, ih]

/-- As long as the lines can be numbered, moving an item does not turn its line
    number over. -/
theorem toNat_line_shift {text : List Char} {item : Item} {lines : Nat} (bytes : Nat)
    (hlines : text.count '\n' + lines ≤ 4294967294) (h : item ∈ itemsFrom .start text) :
    (item.shift lines bytes).line.toNat = item.line.toNat + lines := by
  have htext : text.count '\n' ≤ 4294967294 := by omega
  obtain ⟨before, behind, hcut, -, hitem⟩ :=
    exists_toNat_line_of_mem_itemsFrom (Position.hasRoom_start htext) h
  rw [hcut, List.count_append] at hlines
  rw [show Position.start.line.toNat = 1 from rfl] at hitem
  rw [Item.line_shift, UInt32.toNat_add]
  rw [UInt32.toNat_ofNat_of_lt' (by show _ < 4294967296; omega), hitem]
  apply Nat.mod_eq_of_lt
  omega

/-! ### The seam -/

/-- No item goes on over a line feed. -/
theorem Category.Labels.settled_lineFeed {category : Category} {text rest second : List Char}
    (h : category.Labels text) (hitem : category.isItem = true) (hsettled : Settled text rest) :
    Settled text (rest ++ '\n' :: second) := by
  cases rest with
  | nil => exact h.settled_of_separator hitem rfl (by decide) fun _ => by decide
  | cons c more => exact hsettled

/-- A line feed parts the items before it from those behind it. -/
theorem itemsFrom_seam (pos : Position) (first second : List Char) :
    itemsFrom pos (first ++ '\n' :: second)
      = itemsFrom pos first ++ itemsFrom (pos.after (first ++ ['\n'])) second := by
  induction first using Piece.text_induction generalizing pos with
  | nil =>
    rw [List.nil_append, List.nil_append, itemsFrom_nil, List.nil_append]
    exact itemsFrom_cons_of_isSeparator pos (by decide) second
  | piece category text rest hlabels hsettled ih =>
    rw [List.append_assoc, List.append_assoc, Position.after_append]
    cases hitem : category.isItem with
    | true =>
      rw [itemsFrom_append hlabels (hlabels.settled_lineFeed hitem hsettled),
        itemsFrom_append hlabels hsettled, ih, List.append_assoc]
    | false =>
      -- A run of line breaks goes on over the seam, but it gives no item.
      have hgap := hlabels.allSeparators hitem
      rw [itemsFrom_append_of_separators pos hgap, itemsFrom_append_of_separators pos hgap, ih]

/-! ### Below a text -/

/-- The place below a text, counted in lines and bytes from the start of that
    text. A line feed stands between the two. -/
def Position.below (above : String) (pos : Position) : Position :=
  pos.shift (1 + above.toList.count '\n') (Text.byteLength above.toList + 1)

/-- The item below a text. -/
def Item.below (above : String) (item : Item) : Item :=
  item.shift (1 + above.toList.count '\n') (Text.byteLength above.toList + 1)

theorem toList_seam (first second : String) :
    (first ++ "\n" ++ second).toList = first.toList ++ '\n' :: second.toList := by
  rw [String.toList_append, String.toList_append, List.append_assoc]
  rfl

theorem count_seam (first second : String) :
    (first ++ "\n" ++ second).toList.count '\n'
      = first.toList.count '\n' + (second.toList.count '\n' + 1) := by
  rw [toList_seam, List.count_append, List.count_cons_self]

theorem Position.after_start_lineFeed (first : String) :
    start.after (first.toList ++ ['\n']) = start.below first := by
  unfold below shift after
  rw [List.count_append, Text.byteLength_append, Nat.add_comm 1]
  rfl

/-- Two texts with a line feed between them have the items of the first and,
    below it, those of the second. -/
theorem itemsFrom_start_seam (first second : String) :
    itemsFrom .start (first ++ "\n" ++ second).toList
      = itemsFrom .start first.toList
          ++ (itemsFrom .start second.toList).map (Item.below first) := by
  rw [toList_seam, itemsFrom_seam, Position.after_start_lineFeed, Position.below, itemsFrom_shift]
  rfl

/-- The cursor ends below the first text where it ends in the second. -/
theorem Position.after_start_seam (first second : String) :
    start.after (first ++ "\n" ++ second).toList
      = (start.after second.toList).below first := by
  have htext : (first ++ "\n" ++ second).toList
      = (first.toList ++ ['\n']) ++ second.toList := by
    rw [toList_seam, List.append_assoc]
    rfl
  rw [htext, after_append, after_start_lineFeed, below, below, after_shift]

/-- As long as the lines can be numbered, no line number turns over below a
    text. -/
theorem toNat_line_below {first second : String} {item : Item}
    (hlines : (first ++ "\n" ++ second).toList.count '\n' ≤ 4294967294)
    (h : item ∈ itemsFrom .start second.toList) :
    (item.below first).line.toNat = item.line.toNat + (1 + first.toList.count '\n') := by
  rw [count_seam] at hlines
  exact toNat_line_shift _ (by omega) h

/-! ### Lines one below the other -/

/-- The items of texts that stand one below the other, from those that each
    has by itself. -/
def stacked : List (String × List Item) → List Item
  | [] => []
  | (line, items) :: more => items ++ (stacked more).map (Item.below line)

/-- Lines scanned one by one have the items of the whole text. -/
theorem itemsFrom_intercalate (lines : List String) :
    itemsFrom .start ("\n".intercalate lines).toList
      = stacked (lines.map fun line => (line, itemsFrom .start line.toList)) := by
  induction lines with
  | nil => simp [stacked]
  | cons line more ih =>
    cases more with
    | nil => simp [stacked]
    | cons next more =>
      rw [String.intercalate_cons_cons, itemsFrom_start_seam, ih]
      rfl

/-- What items are does not depend on the lines above them. -/
theorem map_content_stacked (lines : List (String × List Item)) :
    (stacked lines).map Item.content
      = (lines.map fun line => line.2.map Item.content).flatten := by
  induction lines with
  | nil => rfl
  | cons line more ih =>
    obtain ⟨line, items⟩ := line
    have hcontent : Item.content ∘ Item.below line = Item.content :=
      funext fun item => Item.content_shift _ _ item
    rw [stacked, List.map_append, List.map_map, hcontent, ih, List.map_cons, List.flatten_cons]

/-- A line has no more line feeds than the text that it is a line of. -/
theorem count_le_count_intercalate {line : String} {lines : List String} (h : line ∈ lines) :
    line.toList.count '\n' ≤ ("\n".intercalate lines).toList.count '\n' := by
  induction lines with
  | nil => simp at h
  | cons first more ih =>
    cases more with
    | nil =>
      obtain rfl := List.mem_singleton.mp h
      rw [String.intercalate_singleton]
    | cons next more =>
      rw [String.intercalate_cons_cons, count_seam]
      rcases List.mem_cons.mp h with rfl | h
      · omega
      · have hmore := ih h
        omega

/-! ### Whole sources -/

/-- Going through a source gives some items and leaves the cursor somewhere. -/
def Scans (source : String) (items : List Item) (last : Position) : Prop :=
  ∃ drained, (Lexer.ofSource source).drain = .ok drained ∧ drained.items = items ∧
    drained.lexer.position = last

/-- Going through a source gives some items. -/
def Gives (source : String) (items : List Item) : Prop := ∃ last, Scans source items last

theorem scans {source : String} (hlines : source.toList.count '\n' ≤ 4294967294) :
    Scans source (itemsFrom .start source.toList) (Position.start.after source.toList) :=
  Lexer.exists_drain_to_end hlines

theorem gives {source : String} (hlines : source.toList.count '\n' ≤ 4294967294) :
    Gives source (itemsFrom .start source.toList) := ⟨_, scans hlines⟩

/-- Each of the lines of a text gives its items by itself. -/
theorem forall₂_gives {lines text : List String} (hsubset : lines ⊆ text)
    (hlines : ("\n".intercalate text).toList.count '\n' ≤ 4294967294) :
    List.Forall₂ Gives lines (lines.map fun line => itemsFrom .start line.toList) := by
  rw [List.forall₂_map_right_iff, List.forall₂_same]
  intro line hline
  exact gives (Nat.le_trans (count_le_count_intercalate (hsubset hline)) hlines)

/-- Two texts with a line feed between them scan as the first and, below it,
    the second. -/
theorem exists_scans_seam {first second : String}
    (hlines : (first ++ "\n" ++ second).toList.count '\n' ≤ 4294967294) :
    ∃ front back middle last, Scans first front middle ∧ Scans second back last ∧
      Scans (first ++ "\n" ++ second) (front ++ back.map (Item.below first))
        (last.below first) ∧
      (∀ item ∈ back,
        (item.below first).line.toNat = item.line.toNat + (1 + first.toList.count '\n')) ∧
      (last.below first).line.toNat = last.line.toNat + (1 + first.toList.count '\n') := by
  have hcount := count_seam first second
  have hsecond : second.toList.count '\n' ≤ 4294967294 := by omega
  refine ⟨_, _, _, _, scans (by omega), scans hsecond, ?_, ?_, ?_⟩
  · rw [← itemsFrom_start_seam, ← Position.after_start_seam]
    exact scans hlines
  · intro item hitem
    exact toNat_line_below hlines hitem
  · rw [← Position.after_start_seam, Position.toNat_line_after (Position.hasRoom_start hlines),
      Position.toNat_line_after (Position.hasRoom_start hsecond), hcount]
    omega

/-- Lines scan as the text that they make up. -/
theorem exists_gives_intercalate {lines : List String}
    (hlines : ("\n".intercalate lines).toList.count '\n' ≤ 4294967294) :
    ∃ streams, List.Forall₂ Gives lines streams ∧
      Gives ("\n".intercalate lines) (stacked (lines.zip streams)) := by
  refine ⟨_, forall₂_gives (List.Subset.refl lines) hlines, ?_⟩
  rw [← List.map_prod_left_eq_zip, ← itemsFrom_intercalate]
  exact gives hlines

/-- What the items of a line are has its place among those of the text, between
    those of the other lines, which do not depend on the line. -/
theorem exists_gives_line (above below : List String) :
    ∃ upper lower, ∀ line : String,
      ("\n".intercalate (above ++ line :: below)).toList.count '\n' ≤ 4294967294 →
      List.Forall₂ Gives above upper ∧ List.Forall₂ Gives below lower ∧
      ∃ middle whole, Gives line middle ∧
        Gives ("\n".intercalate (above ++ line :: below)) whole ∧
        whole.map Item.content = (upper.flatten ++ (middle ++ lower.flatten)).map Item.content := by
  refine ⟨above.map fun line => itemsFrom .start line.toList,
    below.map fun line => itemsFrom .start line.toList, ?_⟩
  intro line hlines
  have habove : above ⊆ above ++ line :: below := List.subset_append_left _ _
  have hbelow : below ⊆ above ++ line :: below := fun other hother =>
    List.mem_append_right above (List.mem_cons_of_mem line hother)
  have hline : line ∈ above ++ line :: below := List.mem_append_right above List.mem_cons_self
  refine ⟨forall₂_gives habove hlines, forall₂_gives hbelow hlines, _, _,
    gives (Nat.le_trans (count_le_count_intercalate hline) hlines), gives hlines, ?_⟩
  rw [itemsFrom_intercalate, map_content_stacked]
  simp [List.map_flatten, Function.comp_def]

/-- **Line by line**: two texts with a line feed between them have the stream
    of the first followed by the stream of the second, with all places moved
    below the first text, and so is the cursor at the end. Hence the lines of
    a text, scanned one by one, have the items of the whole text, and what the
    items of the other lines are does not depend on what a line is. -/
theorem lines_scan_apart :
    (∀ first second : String, (first ++ "\n" ++ second).toList.count '\n' ≤ 4294967294 →
      ∃ front back middle last, Scans first front middle ∧ Scans second back last ∧
        Scans (first ++ "\n" ++ second) (front ++ back.map (Item.below first))
          (last.below first) ∧
        (∀ item ∈ back,
          (item.below first).line.toNat = item.line.toNat + (1 + first.toList.count '\n')) ∧
        (last.below first).line.toNat = last.line.toNat + (1 + first.toList.count '\n')) ∧
    (∀ lines : List String, ("\n".intercalate lines).toList.count '\n' ≤ 4294967294 →
      ∃ streams, List.Forall₂ Gives lines streams ∧
        Gives ("\n".intercalate lines) (stacked (lines.zip streams))) ∧
    ∀ above below : List String, ∃ upper lower, ∀ line : String,
      ("\n".intercalate (above ++ line :: below)).toList.count '\n' ≤ 4294967294 →
      List.Forall₂ Gives above upper ∧ List.Forall₂ Gives below lower ∧
      ∃ middle whole, Gives line middle ∧
        Gives ("\n".intercalate (above ++ line :: below)) whole ∧
        whole.map Item.content
          = (upper.flatten ++ (middle ++ lower.flatten)).map Item.content := by
  refine ⟨?_, ?_, exists_gives_line⟩
  · intro first second hlines
    exact exists_scans_seam hlines
  · intro lines hlines
    exact exists_gives_intercalate hlines

/-- The comment in `1#a` ends at the line feed, and `!` is reported on the line
    below, wherever that line is put. -/
theorem lines_scan_apart_comment :
    (String.ofList ['1', '#', 'a'] ++ "\n" ++ String.ofList ['!']).toList.count '\n'
      ≤ 4294967294 ∧
    (∃ front back middle last, Scans (String.ofList ['1', '#', 'a']) front middle ∧
      Scans (String.ofList ['!']) back last ∧
      Scans (String.ofList ['1', '#', 'a'] ++ "\n" ++ String.ofList ['!'])
        (front ++ back.map (Item.below (String.ofList ['1', '#', 'a'])))
        (last.below (String.ofList ['1', '#', 'a']))) ∧
    (∃ streams, List.Forall₂ Gives [String.ofList ['1', '#', 'a'], String.ofList ['!']] streams) ∧
    ∃ middle, Gives (String.ofList ['!']) middle := by
  have hlines : (String.ofList ['1', '#', 'a'] ++ "\n" ++ String.ofList ['!']).toList.count '\n'
      ≤ 4294967294 := by
    rw [count_seam, String.toList_ofList, String.toList_ofList]
    decide
  obtain ⟨hseam, hstreams, hedit⟩ := lines_scan_apart
  obtain ⟨front, back, middle, last, hfront, hback, hwhole, -⟩ := hseam _ _ hlines
  obtain ⟨streams, hgiven, -⟩ :=
    hstreams [String.ofList ['1', '#', 'a'], String.ofList ['!']] hlines
  obtain ⟨upper, lower, hline⟩ := hedit [String.ofList ['1', '#', 'a']] []
  obtain ⟨-, -, items, -, hitems, -⟩ := hline (String.ofList ['!']) hlines
  exact ⟨hlines, ⟨front, back, middle, last, hfront, hback, hwhole⟩, ⟨streams, hgiven⟩,
    items, hitems⟩

end ExprScan
