import ExprScan.Proofs.Seams

/-! # Carriage returns

  A file may end its lines with a carriage return and a line feed. A carriage
  return is a blank, so a source has the same items with and without one
  before each line feed, on the same lines. Only their places differ, by the
  carriage returns before them.

  Behind an item, a carriage return takes the place of a line feed. The item
  does not go on with either (`settled_withReturns`): no token but a comment
  holds a blank, and a comment ends at a carriage return.
-/

namespace ExprScan

/-- A text with a carriage return before each line feed. -/
def withReturns (text : List Char) : List Char :=
  text.flatMap fun c => if c = '\n' then ['\r', '\n'] else [c]

/-! ### What is added to a text -/

section withReturns

variable {text : List Char}

@[simp] theorem withReturns_nil : withReturns [] = [] := rfl

theorem withReturns_cons (c : Char) (text : List Char) :
    withReturns (c :: text) = (if c = '\n' then ['\r', '\n'] else [c]) ++ withReturns text :=
  List.flatMap_cons

theorem withReturns_append (first second : List Char) :
    withReturns (first ++ second) = withReturns first ++ withReturns second :=
  List.flatMap_append

theorem withReturns_of_lineFeed_notMem (h : '\n' ∉ text) : withReturns text = text := by
  induction text with
  | nil => rfl
  | cons c text ih =>
    rw [List.mem_cons, not_or] at h
    rw [withReturns_cons, if_neg (Ne.symm h.1), ih h.2]
    rfl

theorem count_withReturns (text : List Char) :
    (withReturns text).count '\n' = text.count '\n' := by
  induction text with
  | nil => rfl
  | cons c text ih =>
    rw [withReturns_cons, List.count_append, ih, List.count_cons]
    by_cases hc : c = '\n'
    · rw [if_pos hc, hc, Nat.add_comm]
      rfl
    · rw [if_neg hc, List.count_singleton, Nat.add_comm]

/-- Each line feed comes with one more byte. -/
theorem byteLength_withReturns (text : List Char) :
    Text.byteLength (withReturns text) = Text.byteLength text + text.count '\n' := by
  induction text with
  | nil => rfl
  | cons c text ih =>
    rw [withReturns_cons, Text.byteLength_append, ih, Text.byteLength_cons, List.count_cons]
    by_cases hc : c = '\n'
    · subst hc
      have hsize : Text.byteLength ['\r', '\n'] = Char.utf8Size '\n' + 1 := rfl
      rw [if_pos rfl, hsize]
      simp only [beq_self_eq_true, if_true]
      omega
    · simp only [if_neg hc, Text.byteLength_cons, Text.byteLength_nil, beq_iff_eq]
      omega

theorem AllSeparators.withReturns (h : AllSeparators text) :
    AllSeparators (withReturns text) := by
  intro c hc
  obtain ⟨d, hd, hmem⟩ := List.mem_flatMap.mp hc
  by_cases hfeed : d = '\n'
  · rw [if_pos hfeed] at hmem
    simp only [List.mem_cons, List.not_mem_nil, or_false] at hmem
    rcases hmem with rfl | rfl <;> decide
  · rw [if_neg hfeed] at hmem
    rw [List.mem_singleton.mp hmem]
    exact h d hd

end withReturns

/-- Carriage returns move the cursor by one byte each. -/
theorem Position.after_withReturns (pos : Position) (text : List Char) :
    pos.after (withReturns text) = (pos.after text).shift 0 (text.count '\n') := by
  unfold after shift
  rw [count_withReturns, byteLength_withReturns]
  simp [Nat.add_assoc]

/-! ### What stays of the items -/

/-- A carriage return before a line feed ends an item as the line feed does. -/
theorem settled_withReturns {category : Category} {text rest : List Char}
    (hlabels : category.Labels text) (hitem : category.isItem = true)
    (hsettled : Settled text rest) : Settled text (withReturns rest) := by
  cases rest with
  | nil => exact hsettled
  | cons c more =>
    rw [withReturns_cons]
    by_cases hc : c = '\n'
    · rw [if_pos hc]
      exact hlabels.settled_of_separator hitem rfl (by decide) fun _ => by decide
    · rw [if_neg hc]
      exact hsettled

/-- What becomes of an item of a source when each line feed gets a carriage
    return: it is the same item on the same line, further on by the line feeds
    before it. -/
structure Pushed (source : String) (item other : Item) : Prop where
  content_eq : other.content = item.content
  line_eq : other.line = item.line
  exists_before : ∃ before behind, source.toList = before ++ behind ∧
    Text.byteLength before = item.span.start ∧
    other.span = ⟨item.span.start + before.count '\n', item.span.stop + before.count '\n'⟩

/-- With carriage returns, the rest of a source has the items that it had. -/
theorem forall₂_pushed {source : String} {before text : List Char}
    (hsource : source.toList = before ++ text) :
    List.Forall₂ (Pushed source) (itemsFrom (Position.start.after before) text)
      (itemsFrom (Position.start.after (withReturns before)) (withReturns text)) := by
  -- Over the pieces: an item keeps its text, and a run of separators may fall into more runs.
  induction text using Piece.text_induction generalizing before with
  | nil => simp
  | piece category text rest hlabels hsettled ih =>
    have hbehind : source.toList = (before ++ text) ++ rest := by
      rw [hsource, List.append_assoc]
    have hrest := ih hbehind
    rw [withReturns_append, Position.after_append, Position.after_append] at hrest
    rw [withReturns_append]
    cases hitem : (category.unit (Position.start.after before) text).item? with
    | none =>
      have hgap := hlabels.allSeparators (Category.isItem_of_item?_eq_none hitem)
      rw [itemsFrom_append_of_separators _ hgap,
        itemsFrom_append_of_separators _ hgap.withReturns]
      exact hrest
    | some item =>
      have hkind := Category.isItem_of_item? hitem
      have hfeed := hlabels.lineFeed_notMem_of_item? hitem
      have hother := category.item?_unit_shift (Position.start.after before) 0
        (before.count '\n') text
      rw [← Position.after_withReturns, hitem] at hother
      rw [withReturns_of_lineFeed_notMem hfeed] at hrest ⊢
      rw [itemsFrom_append hlabels hsettled, hitem,
        itemsFrom_append hlabels (settled_withReturns hlabels hkind hsettled), hother]
      refine .cons ⟨?_, ?_, before, text ++ rest, hsource, ?_, ?_⟩ hrest
      · exact item.content_shift 0 _
      · rw [Item.line_shift]
        simp
      · rw [hlabels.span_eq hitem, Position.offset_after_start]
      · exact item.span_shift 0 _

/-- **Carriage returns**: with a carriage return before each line feed, a
    source has the same items on the same lines, each further on by the line
    feeds before it, and as many lines. -/
theorem returns_push_items (source : String) (hlines : source.toList.count '\n' ≤ 4294967294) :
    ∃ plain returned, (Lexer.ofSource source).drain = .ok plain ∧
      (Lexer.ofSource (String.ofList (withReturns source.toList))).drain = .ok returned ∧
      List.Forall₂ (Pushed source) plain.items returned.items ∧
      returned.lexer.line = plain.lexer.line := by
  have hreturned : (String.ofList (withReturns source.toList)).toList.count '\n'
      ≤ 4294967294 := by
    rw [String.toList_ofList, count_withReturns]
    exact hlines
  obtain ⟨plain, hplain, hitems, hlast⟩ := Lexer.exists_drain_to_end hlines
  obtain ⟨returned, hdrain, hothers, hend⟩ := Lexer.exists_drain_to_end hreturned
  rw [String.toList_ofList] at hothers hend
  refine ⟨plain, returned, hplain, hdrain, ?_, ?_⟩
  · rw [hitems, hothers]
    have hpushed := forall₂_pushed (List.nil_append source.toList).symm
    rwa [withReturns_nil, Position.after_nil] at hpushed
  · rw [Lexer.line, Lexer.line, hlast, hend, Position.after_withReturns]
    simp [Position.shift]

/-- The comment `#a` does not take in the carriage return that is put behind it. -/
theorem returns_push_items_comment :
    (String.ofList ['#', 'a', '\n', '!']).toList.count '\n' ≤ 4294967294 ∧
    ∃ plain returned, (Lexer.ofSource (String.ofList ['#', 'a', '\n', '!'])).drain = .ok plain ∧
      (Lexer.ofSource (String.ofList ['#', 'a', '\r', '\n', '!'])).drain = .ok returned ∧
      List.Forall₂ (Pushed (String.ofList ['#', 'a', '\n', '!'])) plain.items returned.items := by
  have hlines : (String.ofList ['#', 'a', '\n', '!']).toList.count '\n' ≤ 4294967294 := by
    rw [String.toList_ofList]
    decide
  have hreturns : withReturns (String.ofList ['#', 'a', '\n', '!']).toList
      = ['#', 'a', '\r', '\n', '!'] := by
    rw [String.toList_ofList]
    rfl
  obtain ⟨plain, returned, hplain, hreturned, hpushed, -⟩ :=
    returns_push_items (String.ofList ['#', 'a', '\n', '!']) hlines
  rw [hreturns] at hreturned
  exact ⟨hlines, plain, returned, hplain, hreturned, hpushed⟩

end ExprScan
