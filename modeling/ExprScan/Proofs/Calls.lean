import ExprScan.Proofs.Coverage

/-! # Calls of a lexer

  A lexer of a source changes by calls of `next` alone, and what it is like
  depends on the number of calls only (`Lexer.Stage`): as long as there are items,
  each call passes one more; the first call behind the last item records the end,
  and from then on nothing changes.

  One call takes each stage to the next (`Lexer.Stage.next`), and so all calls
  keep to the stages. Going on to the end is nothing but calls, one for each item
  that is left and one more (`Lexer.Stage.advanced_of_drainOnto`). What the caller
  sees of a stage is told by the items of the source (`Lexer.IsAfter`).
-/

namespace ExprScan

/-! ### Calls -/

/-- The lexer after a number of calls of `next`. -/
def Lexer.advanced (lexer : Lexer) : Nat → Except Fault Lexer
  | 0 => .ok lexer
  | calls + 1 => do
    let reading ← lexer.next
    reading.lexer.advanced calls

namespace Lexer

theorem advanced_succ {lexer : Lexer} {reading : Reading} (calls : Nat)
    (h : lexer.next = .ok reading) :
    lexer.advanced (calls + 1) = reading.lexer.advanced calls := by
  show (lexer.next >>= fun reading => reading.lexer.advanced calls) = _
  rw [h]
  rfl

/-- More calls go on from where the first ones got to. -/
theorem advanced_add {lexer middle : Lexer} {calls : Nat} (more : Nat)
    (h : lexer.advanced calls = .ok middle) :
    lexer.advanced (calls + more) = middle.advanced more := by
  induction calls generalizing lexer with
  | zero =>
    obtain rfl := Except.ok.inj h
    rw [Nat.zero_add]
  | succ calls ih =>
    obtain ⟨reading, hnext, hmiddle⟩ := exists_of_bind_eq_ok h
    rw [Nat.add_right_comm, advanced_succ _ hnext, ih hmiddle]

/-! ### Stages -/

/-- The cursor behind the last of some items. -/
def cursorBehind (items : List Item) : Position :=
  match items.getLast? with
  | none => .start
  | some item => ⟨item.line, item.span.stop⟩

/-- What is known of a lexer of a source after a number of calls. -/
structure Stage (source : String) (calls : Nat) (lexer : Lexer) : Prop where
  /-- Each call has passed one item. -/
  within : Within source ((itemsFrom .start source.toList).take calls) lexer
  tokens_eq : lexer.tokens
    = (((itemsFrom .start source.toList).take calls).filterMap Item.token?).length
  errors_eq : lexer.errors
    = (((itemsFrom .start source.toList).take calls).filterMap Item.illegal?).length
  /-- The call behind the last item records the end. -/
  finished_iff : lexer.finished = true ↔ (itemsFrom .start source.toList).length < calls
  /-- As long as calls give items, the cursor is behind the last one. -/
  position_eq : calls ≤ (itemsFrom .start source.toList).length →
    lexer.position = cursorBehind ((itemsFrom .start source.toList).take calls)
  /-- The call behind the last item passes what is left. -/
  rest_eq : (itemsFrom .start source.toList).length < calls → lexer.rest = []

end Lexer

/-- An item that is found leaves the cursor behind it, on its line. -/
theorem Seeking.position_eq {pos : Position} {text : List Char} {sought : Sought} {item : Item}
    (h : Seeking pos text sought) (hitem : sought.item = some item) :
    sought.position = ⟨item.line, item.span.stop⟩ := by
  have hstop := h.stop_eq hitem
  cases h with
  | ended hgap => simp at hitem
  | found hgap hlabels hsettled hfound =>
    obtain rfl := Option.some.inj hitem
    have hfeed := hlabels.lineFeed_notMem_of_item? hfound
    rw [Position.after_of_lineFeed_notMem hfeed] at hstop ⊢
    rw [Category.line_eq_of_item? hfound, ← hstop]

namespace Lexer

theorem stage_ofSource (source : String) : Stage source 0 (ofSource source) := by
  refine ⟨within_ofSource source, rfl, rfl, ?_, fun _ => rfl, ?_⟩
  · simp [ofSource]
  · intro h
    simp at h

theorem Stage.ahead_eq {source : String} {calls : Nat} {lexer : Lexer}
    (h : Stage source calls lexer) :
    itemsFrom lexer.position lexer.rest = (itemsFrom .start source.toList).drop calls := by
  have hitems := h.within.items_eq
  nth_rewrite 1 [← List.take_append_drop calls (itemsFrom .start source.toList)] at hitems
  exact (List.append_cancel_left hitems).symm

theorem tokens_count (lexer : Lexer) (item : Item) :
    (lexer.count item).tokens = lexer.tokens + ([item].filterMap Item.token?).length := by
  cases item <;> rfl

theorem errors_count (lexer : Lexer) (item : Item) :
    (lexer.count item).errors = lexer.errors + ([item].filterMap Item.illegal?).length := by
  cases item <;> rfl

theorem finished_count (lexer : Lexer) (item : Item) :
    (lexer.count item).finished = lexer.finished := by
  cases item <;> rfl

/-- What is found next is the item whose turn it is. -/
theorem Stage.item_eq {source : String} {calls : Nat} {lexer : Lexer} {sought : Sought}
    (h : Stage source calls lexer) (hseeking : Seeking lexer.position lexer.rest sought) :
    sought.item = (itemsFrom .start source.toList)[calls]? := by
  rw [← List.head?_drop, ← h.ahead_eq, hseeking.itemsFrom_eq]
  cases hitem : sought.item with
  | some item => rfl
  | none =>
    rw [hseeking.rest_of_none hitem, itemsFrom_nil]
    rfl

/-- A call gives the item whose turn it is and takes the lexer to the next stage. -/
theorem Stage.next {source : String} {calls : Nat} {lexer : Lexer}
    (h : Stage source calls lexer) (hroom : Position.start.HasRoom source.toList) :
    ∃ reading, lexer.next = .ok reading ∧
      reading.item = (itemsFrom .start source.toList)[calls]? ∧
      Stage source (calls + 1) reading.lexer := by
  obtain ⟨sought, hseeking, hnext⟩ := exists_next (h.within.hasRoom hroom)
  have hitem := h.item_eq hseeking
  have hwithin := h.within.reading hseeking
  have htake := List.take_add_one (l := itemsFrom .start source.toList) (i := calls)
  refine ⟨_, hnext, by rw [item_reading, hitem], ?_⟩
  rw [item_reading, hitem, ← htake] at hwithin
  cases hfound : sought.item with
  | some item =>
    rw [hfound] at hitem
    have hless : calls < (itemsFrom .start source.toList).length :=
      (List.getElem?_eq_some_iff.mp hitem.symm).1
    rw [← hitem] at htake
    rw [reading_some hfound] at hwithin ⊢
    refine ⟨hwithin, ?_, ?_, ?_, ?_, ?_⟩
    · show (lexer.count item).tokens = _
      rw [tokens_count, h.tokens_eq, htake, List.filterMap_append, List.length_append]
      rfl
    · show (lexer.count item).errors = _
      rw [errors_count, h.errors_eq, htake, List.filterMap_append, List.length_append]
      rfl
    · show (lexer.count item).finished = true ↔ _
      rw [finished_count, h.finished_iff]
      omega
    · intro _
      show sought.position = _
      rw [hseeking.position_eq hfound, htake]
      unfold cursorBehind
      rw [Option.toList_some, List.getLast?_concat]
    · intro hmore
      omega
  | none =>
    rw [hfound] at hitem
    have hle : (itemsFrom .start source.toList).length ≤ calls :=
      List.getElem?_eq_none_iff.mp hitem.symm
    rw [← hitem, Option.toList_none, List.append_nil] at htake
    rw [reading_none hfound, finish_fst] at hwithin ⊢
    refine ⟨hwithin, ?_, ?_, ?_, ?_, ?_⟩
    · rw [htake]
      exact h.tokens_eq
    · rw [htake]
      exact h.errors_eq
    · simp only [true_iff]
      omega
    · intro hmore
      omega
    · intro _
      exact hseeking.rest_of_none hfound

theorem Stage.of_next {source : String} {calls : Nat} {lexer : Lexer} {given : Reading}
    (h : Stage source calls lexer) (hroom : Position.start.HasRoom source.toList)
    (hnext : lexer.next = .ok given) :
    given.item = (itemsFrom .start source.toList)[calls]? ∧
      Stage source (calls + 1) given.lexer := by
  obtain ⟨other, hother, hitem, hstage⟩ := h.next hroom
  rw [hnext] at hother
  obtain rfl := Except.ok.inj hother
  exact ⟨hitem, hstage⟩

/-- Going on to the end makes a call for each item that is left, and one more. -/
theorem Stage.advanced_of_drainOnto {source : String} {calls : Nat} {lexer : Lexer}
    {items : List Item} {events : List Event} {drained : Drained} (h : Stage source calls lexer)
    (hroom : Position.start.HasRoom source.toList)
    (hdrain : lexer.drainOnto items events = .ok drained) :
    lexer.advanced ((itemsFrom .start source.toList).length - calls + 1) = .ok drained.lexer := by
  fun_induction Lexer.drainOnto lexer items events generalizing calls with
  | case1 => simp at hdrain
  | case2 lexer items events reading hnext hnone =>
    obtain ⟨hitem, -⟩ := h.of_next hroom hnext
    obtain rfl := Except.ok.inj hdrain
    rw [hnone] at hitem
    rw [Nat.sub_eq_zero_of_le (List.getElem?_eq_none_iff.mp hitem.symm)]
    exact advanced_succ 0 hnext
  | case3 lexer items events reading hnext item hsome ih =>
    obtain ⟨hitem, hstage⟩ := h.of_next hroom hnext
    rw [hsome] at hitem
    have hless := (List.getElem?_eq_some_iff.mp hitem.symm).1
    have hleft : (itemsFrom .start source.toList).length - calls
        = (itemsFrom .start source.toList).length - (calls + 1) + 1 := by omega
    rw [hleft, advanced_succ _ hnext, ih hstage hdrain]

/-- All calls keep to the stages. -/
theorem exists_advanced_ofSource {source : String} (hroom : Position.start.HasRoom source.toList)
    (calls : Nat) :
    ∃ lexer, (ofSource source).advanced calls = .ok lexer ∧ Stage source calls lexer := by
  induction calls with
  | zero => exact ⟨ofSource source, rfl, stage_ofSource source⟩
  | succ calls ih =>
    obtain ⟨lexer, hlexer, hstage⟩ := ih
    obtain ⟨reading, hnext, -, hreading⟩ := hstage.next hroom
    refine ⟨reading.lexer, ?_, hreading⟩
    rw [advanced_add 1 hlexer, advanced_succ 0 hnext]
    rfl

theorem stage_of_advanced {source : String} (hroom : Position.start.HasRoom source.toList)
    {calls : Nat} {lexer : Lexer} (h : (ofSource source).advanced calls = .ok lexer) :
    Stage source calls lexer := by
  obtain ⟨other, hother, hstage⟩ := exists_advanced_ofSource hroom calls
  rw [h] at hother
  obtain rfl := Except.ok.inj hother
  exact hstage

/-! ### What a stage shows -/

/-- What a lexer of a source is like after a number of calls, told by the items
    of the source. -/
structure IsAfter (source : String) (items : List Item) (calls : Nat) (lexer : Lexer) :
    Prop where
  /-- As long as calls give items, the lexer is behind the last one. -/
  underway : calls ≤ items.length →
    lexer.finished = false ∧
    lexer.tokens = ((items.take calls).filterMap Item.token?).length ∧
    lexer.errors = ((items.take calls).filterMap Item.illegal?).length ∧
    lexer.position = cursorBehind (items.take calls)
  /-- Behind the call that finds the end, the lexer is at the end of the source and stays
      as it is. -/
  ended : items.length < calls →
    lexer.finished = true ∧
    lexer.tokens + lexer.errors = items.length ∧
    lexer.position.line.toNat = 1 + source.toList.count '\n' ∧
    lexer.position.offset = Text.byteLength source.toList ∧
    lexer.next = .ok ⟨none, lexer, []⟩
  /-- The next call gives the item whose turn it is. -/
  exists_next : ∃ reading, lexer.next = .ok reading ∧ reading.item = items[calls]?
  /-- The items that are left are those that no call has given. -/
  exists_drain : ∃ drained, lexer.drain = .ok drained ∧ drained.items = items.drop calls
  /-- Of these, the comments can be left out. -/
  exists_withoutComments : ∃ events, lexer.withoutComments
    = .ok ((items.drop calls).filter fun item => !item.isComment, events)

theorem length_token?_add_illegal? (items : List Item) :
    (items.filterMap Item.token?).length + (items.filterMap Item.illegal?).length
      = items.length := by
  induction items with
  | nil => rfl
  | cons item items ih =>
    cases item with
    | token t =>
      show (t :: items.filterMap Item.token?).length + (items.filterMap Item.illegal?).length = _
      rw [List.length_cons, List.length_cons]
      omega
    | illegal report =>
      show (items.filterMap Item.token?).length
        + (report :: items.filterMap Item.illegal?).length = _
      rw [List.length_cons, List.length_cons]
      omega

/-- A finished lexer at the end stays as it is. -/
theorem next_of_finished {lexer : Lexer} (hfinished : lexer.finished = true)
    (hrest : lexer.rest = []) : lexer.next = .ok ⟨none, lexer, []⟩ := by
  have hseek : seek lexer.position lexer.rest = .ok ⟨none, lexer.position, []⟩ := by
    rw [hrest]
    unfold seek
    rfl
  have hsame : lexer.moved lexer.position [] = lexer := by
    rw [← hrest]
    rfl
  unfold next
  rw [hseek]
  show Except.ok (Reading.mk none (lexer.moved lexer.position []).finish.1
    (lexer.moved lexer.position []).finish.2) = _
  rw [hsame, finish, if_pos hfinished]

theorem Stage.exists_drain {source : String} {calls : Nat} {lexer : Lexer}
    (h : Stage source calls lexer) (hroom : Position.start.HasRoom source.toList) :
    ∃ drained, lexer.drain = .ok drained ∧
      drained.items = (itemsFrom .start source.toList).drop calls :=
  ⟨_, drain_eq (h.within.hasRoom hroom), h.ahead_eq⟩

theorem Stage.items_of_drain {source : String} {calls : Nat} {lexer : Lexer} {drained : Drained}
    (h : Stage source calls lexer) (hroom : Position.start.HasRoom source.toList)
    (hdrain : lexer.drain = .ok drained) :
    drained.items = (itemsFrom .start source.toList).drop calls := by
  obtain ⟨other, hother, hitems⟩ := h.exists_drain hroom
  rw [hdrain] at hother
  obtain rfl := Except.ok.inj hother
  exact hitems

theorem Stage.isAfter {source : String} {calls : Nat} {lexer : Lexer}
    (h : Stage source calls lexer) (hroom : Position.start.HasRoom source.toList) :
    lexer.IsAfter source (itemsFrom .start source.toList) calls := by
  refine ⟨?_, ?_, ?_, h.exists_drain hroom, ?_⟩
  · intro hcalls
    refine ⟨?_, h.tokens_eq, h.errors_eq, h.position_eq hcalls⟩
    rw [Bool.eq_false_iff, ne_eq, h.finished_iff]
    omega
  · intro hcalls
    have hfinished := h.finished_iff.mpr hcalls
    have hrest := h.rest_eq hcalls
    obtain ⟨before, hsource, hposition⟩ := h.within.exists_before
    rw [hrest, List.append_nil] at hsource
    refine ⟨hfinished, ?_, ?_, ?_, next_of_finished hfinished hrest⟩
    · rw [h.tokens_eq, h.errors_eq, List.take_of_length_le (Nat.le_of_lt hcalls)]
      exact length_token?_add_illegal? _
    · rw [hposition, ← hsource, Position.toNat_line_after hroom]
      rfl
    · rw [hposition, ← hsource, Position.offset_after_start]
  · obtain ⟨reading, hnext, hitem, -⟩ := h.next hroom
    exact ⟨reading, hnext, hitem⟩
  · obtain ⟨drained, hdrain, hitems⟩ := h.exists_drain hroom
    refine ⟨drained.events, ?_⟩
    unfold withoutComments
    rw [hdrain, ← hitems]
    rfl

end Lexer

end ExprScan
