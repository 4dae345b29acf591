import ExprScan.Lexer
import ExprScan.Proofs.Step

/-! # The stream of items

  The items of a source are those of its pieces, one after the other. This
  module says so without a lexer: `passages` puts every piece of a text in
  its place and `itemsFrom` keeps the ones that are items. Separators add
  nothing (`itemsFrom_append_of_separators`), however they fall into pieces.

  As long as the lines can be numbered, a lexer computes just this:

  - looking for the next item never fails, and ends behind the first piece
    that is one (`exists_seek`);
  - going to the end gives all items that are left (`Lexer.drain_eq`).
-/

namespace ExprScan

/-! ### Induction over pieces -/

/-- A text is empty, or a piece stands before a shorter one. -/
theorem Piece.text_induction {motive : List Char → Prop} (nil : motive [])
    (piece : ∀ (category : Category) (text rest : List Char), category.Labels text →
      Settled text rest → motive rest → motive (text ++ rest))
    (text : List Char) : motive text := by
  -- By the length: what is left behind a piece is shorter.
  induction hn : text.length using Nat.strongRecOn generalizing text with
  | _ n ih =>
    cases hfirst : first? text with
    | none =>
      cases text with
      | nil => exact nil
      | cons c more => simp [first?] at hfirst
    | some found =>
      have hshorter := length_rest_lt hfirst
      rw [← text_append_rest hfirst]
      exact piece found.category found.text found.rest (labels_of_first? hfirst)
        (settled_of_first? hfirst) (ih _ (hn ▸ hshorter) found.rest rfl)

/-! ### Pieces in their places -/

/-- A piece of a text and the cursor at which it stands. -/
structure Passage where
  cursor : Position
  category : Category
  text : List Char

namespace Passage

/-- What a step over the piece finds. -/
def found (passage : Passage) : Step :=
  ⟨passage.category.unit passage.cursor passage.text, passage.cursor.after passage.text⟩

/-- The item that the piece is, if it is one. -/
def item? (passage : Passage) : Option Item := passage.found.scanned.item?

end Passage

/-- The pieces of a text that starts at a cursor. -/
def passages (pos : Position) (text : List Char) : List Passage :=
  match _h : Piece.first? text with
  | none => []
  | some piece => ⟨pos, piece.category, piece.text⟩ :: passages (pos.after piece.text) piece.rest
termination_by text.length
decreasing_by exact Piece.length_rest_lt _h

/-- The items of a text that starts at a cursor. -/
def itemsFrom (pos : Position) (text : List Char) : List Item :=
  (passages pos text).filterMap Passage.item?

section unfolding

variable {pos : Position} {category : Category} {text rest : List Char}

@[simp] theorem passages_nil : passages pos [] = [] := by
  unfold passages
  rfl

theorem passages_append (hlabels : category.Labels text) (hsettled : Settled text rest) :
    passages pos (text ++ rest) = ⟨pos, category, text⟩ :: passages (pos.after text) rest := by
  have hfirst := Piece.first?_append_iff.mpr ⟨hlabels, hsettled⟩
  rw [passages]
  split
  · next hnone => simp [hnone] at hfirst
  · next piece hpiece =>
    rw [hfirst] at hpiece
    obtain rfl := Option.some.inj hpiece
    rfl

@[simp] theorem itemsFrom_nil : itemsFrom pos [] = [] := by simp [itemsFrom]

theorem itemsFrom_append (hlabels : category.Labels text) (hsettled : Settled text rest) :
    itemsFrom pos (text ++ rest)
      = (category.unit pos text).item?.toList ++ itemsFrom (pos.after text) rest := by
  unfold itemsFrom
  have hitem : Passage.item? ⟨pos, category, text⟩ = (category.unit pos text).item? := rfl
  rw [passages_append hlabels hsettled, List.filterMap_cons, hitem]
  cases (category.unit pos text).item? <;> rfl

/-- The items of a text, by what is cut off first. -/
theorem itemsFrom_of_first? {piece : Piece} (h : Piece.first? text = some piece) :
    itemsFrom pos text = (piece.category.unit pos piece.text).item?.toList ++
      itemsFrom (pos.after piece.text) piece.rest := by
  rw [← itemsFrom_append (Piece.labels_of_first? h) (Piece.settled_of_first? h),
    Piece.text_append_rest h]

end unfolding

/-! ### Separators -/

/-- A piece of a category of items is one, and no other piece is. -/
theorem Category.isSome_item?_unit (category : Category) (pos : Position) (text : List Char) :
    (category.unit pos text).item?.isSome = category.isItem := by
  cases category <;> rfl

theorem Category.item?_unit_eq_none {category : Category} (h : category.isItem = false)
    (pos : Position) (text : List Char) : (category.unit pos text).item? = none := by
  have hsome := isSome_item?_unit category pos text
  rw [h] at hsome
  exact Option.isNone_iff_eq_none.mp (Option.isSome_eq_false_iff.mp hsome)

theorem Category.exists_item {category : Category} (h : category.isItem = true)
    (pos : Position) (text : List Char) : ∃ item, (category.unit pos text).item? = some item := by
  have hsome := isSome_item?_unit category pos text
  rw [h] at hsome
  exact Option.isSome_iff_exists.mp hsome

theorem Category.isItem_of_item? {category : Category} {pos : Position} {text : List Char}
    {item : Item} (h : (category.unit pos text).item? = some item) : category.isItem = true := by
  rw [← isSome_item?_unit category pos text, h]
  rfl

theorem Category.isItem_of_item?_eq_none {category : Category} {pos : Position}
    {text : List Char} (h : (category.unit pos text).item? = none) :
    category.isItem = false := by
  rw [← isSome_item?_unit category pos text, h]
  rfl

theorem Category.item?_unit_eq_illegal {category : Category} {pos : Position}
    {text : List Char} {report : Illegal} :
    (category.unit pos text).item? = some (.illegal report)
      ↔ category = .illegal report.character ∧ report.position = pos := by
  obtain ⟨character, position⟩ := report
  cases category <;> simp [unit, Scanned.item?, eq_comm]

/-- A separator before a text adds no item and moves the cursor. A run of
    separators that goes on in the text is cut into two pieces by this, and
    neither is an item. -/
theorem itemsFrom_cons_of_run (category : Category) {member : Char → Bool}
    (hitem : category.isItem = false)
    (hrun : ∀ (c : Char) (more : List Char), member c = true → Piece.first? (c :: more)
      = some ⟨category, c :: more.takeWhile member, more.dropWhile member⟩)
    (pos : Position) {c : Char} (hc : member c = true) (rest : List Char) :
    itemsFrom pos (c :: rest) = itemsFrom (pos.after [c]) rest := by
  have hpass : ∀ (pos : Position) (d : Char) (more : List Char), member d = true →
      itemsFrom pos (d :: more)
        = itemsFrom (pos.after (d :: more.takeWhile member)) (more.dropWhile member) := by
    intro pos d more hd
    have hfirst := hrun d more hd
    rw [← Piece.text_append_rest hfirst, itemsFrom_append (Piece.labels_of_first? hfirst)
      (Piece.settled_of_first? hfirst), Category.item?_unit_eq_none hitem]
    rfl
  -- The run that starts here ends where the one of the next character does.
  rw [hpass pos c rest hc]
  cases rest with
  | nil => simp
  | cons d more =>
    by_cases hd : member d = true
    · rw [hpass _ d more hd, ← Position.after_append]
      simp [hd]
    · simp [hd]

theorem itemsFrom_cons_of_isSeparator (pos : Position) {c : Char} (hc : isSeparator c = true)
    (rest : List Char) : itemsFrom pos (c :: rest) = itemsFrom (pos.after [c]) rest := by
  unfold isSeparator at hc
  rw [Bool.or_eq_true] at hc
  rcases hc with hc | hc
  · refine itemsFrom_cons_of_run .blank rfl ?_ pos hc rest
    intro d more hd
    simp [Piece.first?, Piece.cut, Piece.run, hd]
  · refine itemsFrom_cons_of_run .lineBreaks rfl ?_ pos hc rest
    intro d more hd
    obtain rfl : d = '\n' := by simpa [isLineBreak] using hd
    have hblank : isBlank '\n' = false := by decide
    simp [Piece.first?, Piece.cut, Piece.run, hd, hblank]

/-- Separators before a text add no item and move the cursor. -/
theorem itemsFrom_append_of_separators (pos : Position) {gap : List Char}
    (hgap : AllSeparators gap) (rest : List Char) :
    itemsFrom pos (gap ++ rest) = itemsFrom (pos.after gap) rest := by
  induction gap generalizing pos with
  | nil => simp
  | cons c gap ih =>
    have hc := hgap c List.mem_cons_self
    have htail : AllSeparators gap := fun d hd => hgap d (List.mem_cons_of_mem c hd)
    rw [List.cons_append, itemsFrom_cons_of_isSeparator pos hc, ih _ htail,
      ← Position.after_append]
    rfl

/-! ### Where items stand -/

/-- The bytes that an item covers. -/
def Item.span : Item → Span
  | .token t => t.span
  | .illegal report =>
    ⟨report.position.offset, report.position.offset + report.character.utf8Size⟩

/-- An item covers the whole of its piece. -/
theorem Category.Labels.span_eq {category : Category} {pos : Position} {text : List Char}
    {item : Item} (h : category.Labels text)
    (hitem : (category.unit pos text).item? = some item) :
    item.span = ⟨pos.offset, pos.offset + Text.byteLength text⟩ := by
  match category, hitem with
  | .token kind, hitem =>
    obtain rfl := Option.some.inj hitem
    rfl
  | .illegal c, hitem =>
    obtain rfl := Option.some.inj hitem
    rw [h.eq_singleton]
    simp [Item.span]

/-- An item is on the line of its piece. -/
theorem Category.line_eq_of_item? {category : Category} {pos : Position} {text : List Char}
    {item : Item} (h : (category.unit pos text).item? = some item) : item.line = pos.line := by
  match category, h with
  | .token kind, h =>
    obtain rfl := Option.some.inj h
    rfl
  | .illegal c, h =>
    obtain rfl := Option.some.inj h
    rfl

/-- An item holds no line feed. -/
theorem Category.Labels.lineFeed_notMem_of_item? {category : Category} {pos : Position}
    {text : List Char} {item : Item} (h : category.Labels text)
    (hitem : (category.unit pos text).item? = some item) : '\n' ∉ text := by
  apply h.lineFeed_notMem
  rintro rfl
  simp [Category.unit, Scanned.item?] at hitem

theorem Category.Labels.byteLength_pos {category : Category} {text : List Char}
    (h : category.Labels text) : 0 < Text.byteLength text := by
  have hne : Text.byteLength text ≠ 0 := by
    intro hzero
    exact h.ne_nil (Text.byteLength_eq_zero.mp hzero)
  omega

/-- The items of a text cover bytes of that text. -/
theorem bounds_of_mem_itemsFrom {pos : Position} {text : List Char} {item : Item}
    (h : item ∈ itemsFrom pos text) :
    pos.offset ≤ item.span.start ∧ item.span.start < item.span.stop ∧
      item.span.stop ≤ pos.offset + Text.byteLength text := by
  induction text using Piece.text_induction generalizing pos with
  | nil => simp at h
  | piece category text rest hlabels hsettled ih =>
    rw [itemsFrom_append hlabels hsettled] at h
    rw [Text.byteLength_append]
    rcases List.mem_append.mp h with hhead | htail
    · have hspan := hlabels.span_eq (Option.mem_toList.mp hhead)
      have hpos := hlabels.byteLength_pos
      rw [hspan]
      simp only
      omega
    · have hbounds := ih htail
      rw [Position.offset_after] at hbounds
      omega

/-- No item starts before the items ahead of it have ended. -/
theorem pairwise_itemsFrom (pos : Position) (text : List Char) :
    (itemsFrom pos text).Pairwise fun first second => first.span.stop ≤ second.span.start := by
  induction text using Piece.text_induction generalizing pos with
  | nil => simp
  | piece category text rest hlabels hsettled ih =>
    rw [itemsFrom_append hlabels hsettled, List.pairwise_append]
    refine ⟨by cases (category.unit pos text).item? <;> simp, ih _, ?_⟩
    -- The first piece ends where the rest starts.
    intro first hfirst second hsecond
    rw [hlabels.span_eq (Option.mem_toList.mp hfirst)]
    exact (bounds_of_mem_itemsFrom hsecond).1

/-! ### Looking for the next item -/

/-- What looking for the next item comes to: the end, with separators only
    before it, or the first piece that is an item, behind separators. -/
inductive Seeking (pos : Position) : List Char → Sought → Prop where
  | ended {gap : List Char} (hgap : AllSeparators gap) :
      Seeking pos gap ⟨none, pos.after gap, []⟩
  | found {gap text rest : List Char} {category : Category} {item : Item}
      (hgap : AllSeparators gap) (hlabels : category.Labels text)
      (hsettled : Settled text rest)
      (hitem : (category.unit (pos.after gap) text).item? = some item) :
      Seeking pos (gap ++ (text ++ rest)) ⟨some item, (pos.after gap).after text, rest⟩

/-- One round of looking for the next item. -/
theorem seek_of_first? {pos : Position} {text : List Char} {piece : Piece} {found : Step}
    (hfirst : Piece.first? text = some piece) (hstep : piece.step pos = .ok found) :
    seek pos text =
      match found.scanned.item? with
      | some item => .ok ⟨some item, found.next, piece.rest⟩
      | none => seek found.next piece.rest := by
  rw [seek]
  split
  · next hnone => simp [hnone] at hfirst
  · next other hother =>
    rw [hfirst] at hother
    obtain rfl := Option.some.inj hother
    cases hitem : found.scanned.item? <;> simp only [hstep, hitem]

theorem Seeking.at_end (pos : Position) : Seeking pos [] ⟨none, pos, []⟩ := by
  have hgap : AllSeparators [] := by simp [AllSeparators]
  have h : Seeking pos [] ⟨none, pos.after [], []⟩ := Seeking.ended hgap
  rwa [Position.after_nil] at h

theorem Seeking.of_first {pos : Position} {text rest : List Char} {category : Category}
    {item : Item} (hlabels : category.Labels text) (hsettled : Settled text rest)
    (hitem : (category.unit pos text).item? = some item) :
    Seeking pos (text ++ rest) ⟨some item, pos.after text, rest⟩ := by
  have hgap : AllSeparators [] := by simp [AllSeparators]
  rw [← pos.after_nil] at hitem
  have hfound := Seeking.found hgap hlabels hsettled hitem
  rwa [Position.after_nil] at hfound

/-- Separators before the place from which an item is sought are passed over. -/
theorem Seeking.append_left {pos : Position} {gap text : List Char} {sought : Sought}
    (hgap : AllSeparators gap) (h : Seeking (pos.after gap) text sought) :
    Seeking pos (gap ++ text) sought := by
  cases h with
  | ended hmore =>
    rw [← Position.after_append]
    exact Seeking.ended (hgap.append hmore)
  | @found more text rest category item hmore hlabels hsettled hitem =>
    rw [← Position.after_append] at hitem
    have hfound := Seeking.found (hgap.append hmore) hlabels hsettled hitem
    rwa [Position.after_append, List.append_assoc] at hfound

/-- Looking for the next item succeeds if the lines can be numbered. -/
theorem exists_seek {pos : Position} {text : List Char} (hroom : pos.HasRoom text) :
    ∃ sought, seek pos text = .ok sought ∧ Seeking pos text sought := by
  induction text using Piece.text_induction generalizing pos with
  | nil =>
    exact ⟨⟨none, pos, []⟩, by unfold seek; rfl, Seeking.at_end pos⟩
  | piece category text rest hlabels hsettled ih =>
    have hfirst := Piece.first?_append_iff.mpr ⟨hlabels, hsettled⟩
    have hstep : Piece.step ⟨category, text, rest⟩ pos
        = .ok ⟨category.unit pos text, pos.after text⟩ := Piece.step_of_hasRoom hlabels hroom.left
    rw [seek_of_first? hfirst hstep]
    cases hkind : category.isItem with
    | true =>
      obtain ⟨item, hitem⟩ := Category.exists_item hkind pos text
      exact ⟨⟨some item, pos.after text, rest⟩, by simp [hitem],
        Seeking.of_first hlabels hsettled hitem⟩
    | false =>
      -- What is passed over joins the separators ahead of what is found.
      obtain ⟨sought, hseek, hseeking⟩ := ih hroom.right
      refine ⟨sought, ?_, hseeking.append_left (hlabels.allSeparators hkind)⟩
      rw [Category.item?_unit_eq_none hkind]
      exact hseek

/-- Looking for the next item finds what it comes to, if it succeeds. -/
theorem Seeking.of_seek {pos : Position} {text : List Char} {sought : Sought}
    (h : seek pos text = .ok sought) : Seeking pos text sought := by
  fun_induction seek pos text with
  | case1 pos text hnone =>
    obtain rfl := Except.ok.inj h
    cases text with
    | nil => exact Seeking.at_end pos
    | cons c more => simp [Piece.first?] at hnone
  | case2 => simp at h
  | case3 pos text piece hpiece found hstep item hitem =>
    have hlabels := Piece.labels_of_first? hpiece
    obtain rfl := Except.ok.inj h
    obtain rfl := Piece.eq_of_step hlabels hstep
    rw [← Piece.text_append_rest hpiece]
    exact Seeking.of_first hlabels (Piece.settled_of_first? hpiece) hitem
  | case4 pos text piece hpiece found hstep hitem ih =>
    have hlabels := Piece.labels_of_first? hpiece
    obtain rfl := Piece.eq_of_step hlabels hstep
    rw [← Piece.text_append_rest hpiece]
    exact (ih h).append_left (hlabels.allSeparators (Category.isItem_of_item?_eq_none hitem))

/-- The items of a text are the next one and those behind it. -/
theorem Seeking.itemsFrom_eq {pos : Position} {text : List Char} {sought : Sought}
    (h : Seeking pos text sought) :
    itemsFrom pos text = sought.item.toList ++ itemsFrom sought.position sought.rest := by
  cases h with
  | @ended gap hgap =>
    have := itemsFrom_append_of_separators pos hgap []
    rw [List.append_nil] at this
    simpa using this
  | found hgap hlabels hsettled hitem =>
    rw [itemsFrom_append_of_separators pos hgap, itemsFrom_append hlabels hsettled, hitem]

/-- Looking for the next item passes over a first part of the text. -/
theorem Seeking.exists_passed {pos : Position} {text : List Char} {sought : Sought}
    (h : Seeking pos text sought) :
    ∃ passed, text = passed ++ sought.rest ∧ sought.position = pos.after passed := by
  cases h with
  | ended hgap => exact ⟨text, (List.append_nil text).symm, rfl⟩
  | @found gap text rest _ _ hgap hlabels hsettled hitem =>
    exact ⟨gap ++ text, (List.append_assoc gap text rest).symm, Position.after_append.symm⟩

/-- Where an item is found, it stands behind separators. -/
theorem Seeking.exists_parts {pos : Position} {text : List Char} {sought : Sought} {item : Item}
    (h : Seeking pos text sought) (hitem : sought.item = some item) :
    ∃ (gap : List Char) (category : Category) (word : List Char),
      text = gap ++ (word ++ sought.rest) ∧ AllSeparators gap ∧
      category.Labels word ∧ Settled word sought.rest ∧
      (category.unit (pos.after gap) word).item? = some item ∧
      sought.position = (pos.after gap).after word := by
  cases h with
  | ended => simp at hitem
  | found hgap hlabels hsettled hunit =>
    obtain rfl := Option.some.inj hitem
    exact ⟨_, _, _, rfl, hgap, hlabels, hsettled, hunit, rfl⟩

theorem Seeking.hasRoom {pos : Position} {text : List Char} {sought : Sought}
    (h : Seeking pos text sought) (hroom : pos.HasRoom text) :
    sought.position.HasRoom sought.rest := by
  obtain ⟨passed, htext, hposition⟩ := h.exists_passed
  rw [htext] at hroom
  rw [hposition]
  exact hroom.right

theorem Seeking.position_after {pos : Position} {text : List Char} {sought : Sought}
    (h : Seeking pos text sought) : sought.position.after sought.rest = pos.after text := by
  obtain ⟨passed, htext, hposition⟩ := h.exists_passed
  rw [hposition, ← Position.after_append, ← htext]

theorem Seeking.rest_of_none {pos : Position} {text : List Char} {sought : Sought}
    (h : Seeking pos text sought) (hitem : sought.item = none) : sought.rest = [] := by
  cases h with
  | ended hgap => rfl
  | found => simp at hitem

/-! ### Lexers -/

/-- A computation that succeeds did so in its first part. -/
theorem exists_of_bind_eq_ok {ε α β : Type} {first : Except ε α} {next : α → Except ε β}
    {result : β} (h : first >>= next = .ok result) :
    ∃ found, first = .ok found ∧ next found = .ok result := by
  cases first with
  | error fault => exact nomatch h
  | ok found => exact ⟨found, rfl, h⟩

namespace Lexer

/-- A lexer at another place of its source. -/
def moved (lexer : Lexer) (pos : Position) (rest : List Char) : Lexer :=
  { lexer with position := pos, rest := rest }

theorem count_moved (lexer : Lexer) (pos : Position) (rest : List Char) (item : Item) :
    (lexer.moved pos rest).count item = (lexer.count item).moved pos rest := by
  cases item <;> rfl

/-- What asking for the next item gives, once it has been looked for. -/
def reading (lexer : Lexer) (sought : Sought) : Reading :=
  let there := lexer.moved sought.position sought.rest
  match sought.item with
  | some item => ⟨some item, there.count item, [Event.ofItem item]⟩
  | none => ⟨none, there.finish.1, there.finish.2⟩

theorem next_of_seek {lexer : Lexer} {sought : Sought}
    (h : seek lexer.position lexer.rest = .ok sought) :
    lexer.next = .ok (lexer.reading sought) := by
  unfold next reading
  rw [h]
  simp only [bind, Except.bind, moved]
  cases sought.item <;> rfl

/-- Asking for the next item succeeds if the lines can be numbered. -/
theorem exists_next {lexer : Lexer} (hroom : lexer.position.HasRoom lexer.rest) :
    ∃ sought, Seeking lexer.position lexer.rest sought ∧
      lexer.next = .ok (lexer.reading sought) := by
  obtain ⟨sought, hseek, hseeking⟩ := exists_seek hroom
  exact ⟨sought, hseeking, next_of_seek hseek⟩

/-- Where asking for the next item succeeds, it has been looked for. -/
theorem exists_seek_of_next {lexer : Lexer} {given : Reading} (h : lexer.next = .ok given) :
    ∃ sought, seek lexer.position lexer.rest = .ok sought ∧ given = lexer.reading sought := by
  have hbind := h
  unfold next at hbind
  obtain ⟨sought, hseek, -⟩ := exists_of_bind_eq_ok hbind
  rw [next_of_seek hseek] at h
  exact ⟨sought, hseek, (Except.ok.inj h).symm⟩

theorem exists_seeking_of_next {lexer : Lexer} {given : Reading} (h : lexer.next = .ok given) :
    ∃ sought, Seeking lexer.position lexer.rest sought ∧ given = lexer.reading sought := by
  obtain ⟨sought, hseek, hgiven⟩ := exists_seek_of_next h
  exact ⟨sought, Seeking.of_seek hseek, hgiven⟩

theorem reading_some {lexer : Lexer} {sought : Sought} {item : Item}
    (h : sought.item = some item) :
    lexer.reading sought
      = ⟨some item, (lexer.count item).moved sought.position sought.rest,
          [Event.ofItem item]⟩ := by
  unfold reading
  rw [h]
  simp only [count_moved]

theorem reading_none {lexer : Lexer} {sought : Sought} (h : sought.item = none) :
    lexer.reading sought
      = ⟨none, (lexer.moved sought.position sought.rest).finish.1,
          (lexer.moved sought.position sought.rest).finish.2⟩ := by
  unfold reading
  rw [h]

@[simp] theorem item_reading (lexer : Lexer) (sought : Sought) :
    (lexer.reading sought).item = sought.item := by
  unfold reading
  cases sought.item <;> rfl

/-- At the end a lexer is finished, and nothing else about it changes. -/
theorem finish_fst (lexer : Lexer) : lexer.finish.1 = { lexer with finished := true } := by
  unfold finish
  split
  · next hfinished => rw [← hfinished]
  · rfl

@[simp] theorem position_reading (lexer : Lexer) (sought : Sought) :
    (lexer.reading sought).lexer.position = sought.position := by
  cases hitem : sought.item with
  | some item =>
    rw [reading_some hitem]
    rfl
  | none =>
    rw [reading_none hitem, finish_fst]
    rfl

@[simp] theorem rest_reading (lexer : Lexer) (sought : Sought) :
    (lexer.reading sought).lexer.rest = sought.rest := by
  cases hitem : sought.item with
  | some item =>
    rw [reading_some hitem]
    rfl
  | none =>
    rw [reading_none hitem, finish_fst]
    rfl

/-! ### Going to the end -/

/-- The lexer behind all items that are left, before the end is recorded. -/
def exhausted (lexer : Lexer) : Lexer :=
  ((itemsFrom lexer.position lexer.rest).foldl count lexer).moved
    (lexer.position.after lexer.rest) []

theorem foldl_count_moved (items : List Item) (lexer : Lexer) (pos : Position)
    (rest : List Char) :
    items.foldl count (lexer.moved pos rest) = (items.foldl count lexer).moved pos rest := by
  induction items generalizing lexer with
  | nil => rfl
  | cons item items ih => rw [List.foldl_cons, List.foldl_cons, count_moved, ih]

/-- Passing an item leaves the end where it is. -/
theorem exhausted_moved {lexer : Lexer} {sought : Sought} {item : Item}
    (h : Seeking lexer.position lexer.rest sought) (hitem : sought.item = some item) :
    ((lexer.count item).moved sought.position sought.rest).exhausted = lexer.exhausted := by
  unfold exhausted
  rw [foldl_count_moved, h.itemsFrom_eq, hitem, ← h.position_after]
  rfl

/-- At the end there is nothing to count. -/
theorem exhausted_of_ended {lexer : Lexer} {sought : Sought}
    (h : Seeking lexer.position lexer.rest sought) (hitem : sought.item = none) :
    itemsFrom lexer.position lexer.rest = [] ∧
      lexer.exhausted = lexer.moved sought.position sought.rest := by
  have hitems := h.itemsFrom_eq
  have hafter := h.position_after
  have hrest := h.rest_of_none hitem
  rw [hitem, hrest] at hitems
  rw [hrest, Position.after_nil] at hafter
  have hnone : itemsFrom lexer.position lexer.rest = [] := by simpa using hitems
  refine ⟨hnone, ?_⟩
  unfold exhausted
  rw [hnone, hafter, hrest]
  rfl

/-- Going to the end gives the items that are left, records each of them and
    then the end. -/
theorem drainOnto_eq {lexer : Lexer} (items : List Item) (events : List Event)
    (hroom : lexer.position.HasRoom lexer.rest) :
    lexer.drainOnto items events
      = .ok ⟨items.reverse ++ itemsFrom lexer.position lexer.rest, lexer.exhausted.finish.1,
          events.reverse ++ ((itemsFrom lexer.position lexer.rest).map Event.ofItem ++
            lexer.exhausted.finish.2)⟩ := by
  -- By the calls of `drainOnto`: the next item leads the ones that are left, and
  -- the one found before it comes last in the reverse.
  fun_induction drainOnto lexer items events with
  | case1 lexer items events fault hnext =>
    obtain ⟨sought, _, hreading⟩ := exists_next hroom
    rw [hnext] at hreading
    simp at hreading
  | case2 lexer items events reading hnext hitem =>
    obtain ⟨sought, hseeking, hreading⟩ := exists_next hroom
    rw [hnext] at hreading
    obtain rfl := Except.ok.inj hreading
    cases hfound : sought.item with
    | some item => simp [reading_some hfound] at hitem
    | none =>
      obtain ⟨hnone, hexhausted⟩ := exhausted_of_ended hseeking hfound
      rw [hnone, hexhausted, reading_none hfound]
      simp
  | case3 lexer items events reading hnext item hitem ih =>
    obtain ⟨sought, hseeking, hreading⟩ := exists_next hroom
    rw [hnext] at hreading
    obtain rfl := Except.ok.inj hreading
    cases hfound : sought.item with
    | none => simp [reading_none hfound] at hitem
    | some other =>
      rw [reading_some hfound] at hitem ih ⊢
      obtain rfl := Option.some.inj hitem
      have hitems := hseeking.itemsFrom_eq
      rw [hfound] at hitems
      rw [ih (hseeking.hasRoom hroom), exhausted_moved hseeking hfound, hitems]
      simp [moved]

/-- Where going to the end succeeds, it gives the items that are left, also when there are
    more lines than can be numbered. -/
theorem items_eq_of_drainOnto {lexer : Lexer} {items : List Item} {events : List Event}
    {drained : Drained} (h : lexer.drainOnto items events = .ok drained) :
    drained.items = items.reverse ++ itemsFrom lexer.position lexer.rest := by
  fun_induction drainOnto lexer items events with
  | case1 => simp at h
  | case2 lexer items events reading hnext hitem =>
    obtain ⟨sought, hseeking, rfl⟩ := exists_seeking_of_next hnext
    rw [item_reading] at hitem
    obtain rfl := Except.ok.inj h
    rw [(exhausted_of_ended hseeking hitem).1, List.append_nil]
  | case3 lexer items events reading hnext item hitem ih =>
    obtain ⟨sought, hseeking, rfl⟩ := exists_seeking_of_next hnext
    rw [item_reading] at hitem
    rw [ih h, hseeking.itemsFrom_eq, hitem, position_reading, rest_reading, List.reverse_cons,
      List.append_assoc]
    rfl

theorem items_eq_of_drain {source : String} {drained : Drained}
    (h : (ofSource source).drain = .ok drained) :
    drained.items = itemsFrom .start source.toList :=
  items_eq_of_drainOnto h

/-- What going to the end gives. -/
theorem drain_eq {lexer : Lexer} (hroom : lexer.position.HasRoom lexer.rest) :
    lexer.drain
      = .ok ⟨itemsFrom lexer.position lexer.rest, lexer.exhausted.finish.1,
          (itemsFrom lexer.position lexer.rest).map Event.ofItem ++
            lexer.exhausted.finish.2⟩ := by
  unfold drain
  rw [drainOnto_eq [] [] hroom]
  simp

/-- What going through a whole source gives, and where the cursor is left. -/
theorem exists_drain_to_end {source : String}
    (hlines : source.toList.count '\n' ≤ 4294967294) :
    ∃ drained, (ofSource source).drain = .ok drained ∧
      drained.items = itemsFrom .start source.toList ∧
      drained.lexer.position = Position.start.after source.toList := by
  refine ⟨_, drain_eq (Position.hasRoom_start hlines), rfl, ?_⟩
  rw [finish_fst]
  rfl

/-- What going through a whole source gives. -/
theorem exists_drain_ofSource {source : String}
    (hlines : source.toList.count '\n' ≤ 4294967294) :
    ∃ drained, (ofSource source).drain = .ok drained ∧
      drained.items = itemsFrom .start source.toList := by
  obtain ⟨drained, hdrain, hitems, -⟩ := exists_drain_to_end hlines
  exact ⟨drained, hdrain, hitems⟩

end Lexer

theorem tokenize_eq {source : String} {drained : Lexer.Drained}
    (h : (Lexer.ofSource source).drain = .ok drained) :
    tokenize source
      = .ok (drained.items.filterMap Item.token?, drained.items.filterMap Item.illegal?) := by
  unfold tokenize
  rw [h]
  rfl

/-- Where a scan succeeds, it gives the tokens and the reports among the items. -/
theorem eq_of_tokenize {source : String} {tokens : List Token} {reports : List Illegal}
    (h : tokenize source = .ok (tokens, reports)) :
    tokens = (itemsFrom .start source.toList).filterMap Item.token? ∧
      reports = (itemsFrom .start source.toList).filterMap Item.illegal? := by
  obtain ⟨drained, hdrain, hresult⟩ := exists_of_bind_eq_ok h
  obtain ⟨rfl, rfl⟩ := Prod.mk.inj (Except.ok.inj hresult)
  rw [Lexer.items_eq_of_drain hdrain]
  exact ⟨rfl, rfl⟩

end ExprScan
