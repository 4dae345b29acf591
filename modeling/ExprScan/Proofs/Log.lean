import ExprScan.Proofs.Sessions

/-! # The log of a session

  A source has one log (`logOf`): an entry for each item and, behind them, one
  for the end with the counts of the whole. Each call of `next` on a lexer of
  the source records the entry whose turn it is (`Stage.events_eq`), and there
  is nothing left to record for the calls after the end. So what an operation
  records is a cut of the log, from the number of calls made before it to the
  number of calls made by then (`Counted.events_eq`).

  The calls are counted (`Session.Counted`). A copy counts those of the lexer
  that it was taken of, and so the cut of a lexer that was gone back to starts
  where that lexer was kept.
-/

namespace ExprScan

/-! ### The log of a source -/

/-- The entry for the end of a source, with the counts of the whole. -/
def ending (source : String) : Event :=
  .finished ((itemsFrom .start source.toList).filterMap Item.token?).length
    ((itemsFrom .start source.toList).filterMap Item.illegal?).length
    (Position.start.after source.toList).line

/-- All that can be recorded of a source. -/
def logOf (source : String) : List Event :=
  (itemsFrom .start source.toList).map Event.ofItem ++ [ending source]

@[simp] theorem length_logOf (source : String) :
    (logOf source).length = (itemsFrom .start source.toList).length + 1 := by
  unfold logOf
  rw [List.length_append, List.length_map, List.length_singleton]

/-- Each item has its entry at its own place. -/
theorem getElem?_logOf_of_item {source : String} {calls : Nat} {item : Item}
    (h : (itemsFrom .start source.toList)[calls]? = some item) :
    (logOf source)[calls]? = some (Event.ofItem item) := by
  have hless : calls < ((itemsFrom .start source.toList).map Event.ofItem).length := by
    rw [List.length_map]
    exact (List.getElem?_eq_some_iff.mp h).1
  unfold logOf
  rw [List.getElem?_append_left hless, List.getElem?_map, h]
  rfl

/-- The end has its entry behind those of the items. -/
theorem getElem?_logOf_length (source : String) :
    (logOf source)[(itemsFrom .start source.toList).length]? = some (ending source) := by
  unfold logOf
  rw [← List.length_map (f := Event.ofItem), List.getElem?_concat_length]

/-! ### Levels -/

theorem filter_trace_map_ofItem (items : List Item) :
    (items.map Event.ofItem).filter (fun event => event.level = .trace)
      = (items.filterMap Item.token?).map fun t => .token t.kind t.line := by
  induction items with
  | nil => rfl
  | cons item items ih =>
    cases item with
    | token t => exact congrArg (List.cons (Event.token t.kind t.line)) ih
    | illegal report => exact ih

theorem filter_warn_map_ofItem (items : List Item) :
    (items.map Event.ofItem).filter (fun event => event.level = .warn)
      = (items.filterMap Item.illegal?).map
          fun report => .illegal report.character report.position.line := by
  induction items with
  | nil => rfl
  | cons item items ih =>
    cases item with
    | token t => exact ih
    | illegal report =>
      exact congrArg (List.cons (Event.illegal report.character report.position.line)) ih

theorem filter_debug_map_ofItem (items : List Item) :
    (items.map Event.ofItem).filter (fun event => event.level = .debug) = [] := by
  rw [List.filter_eq_nil_iff]
  intro event hevent
  obtain ⟨item, -, rfl⟩ := List.mem_map.mp hevent
  cases item <;> simp [Event.ofItem, Event.level]

/-! ### Calls -/

namespace Lexer

variable {source : String} {calls : Nat} {lexer : Lexer}

/-- Where no item is found, the cursor comes to the end of the source. -/
theorem Within.position_of_none {given : List Item} {sought : Sought}
    (h : Within source given lexer) (hseeking : Seeking lexer.position lexer.rest sought)
    (hnone : sought.item = none) : sought.position = Position.start.after source.toList := by
  obtain ⟨before, hsource, hposition⟩ := h.exists_before
  have hafter := hseeking.position_after
  rw [hseeking.rest_of_none hnone, Position.after_nil] at hafter
  rw [hafter, hposition, ← Position.after_append, ← hsource]

/-- A call records the entry whose turn it is. -/
theorem Stage.events_eq {given : Reading} (h : Stage source calls lexer)
    (hnext : lexer.next = .ok given) : given.events = (logOf source)[calls]?.toList := by
  obtain ⟨sought, hseeking, rfl⟩ := exists_seeking_of_next hnext
  have hitem := h.item_eq hseeking
  cases hfound : sought.item with
  | some item =>
    rw [hfound] at hitem
    rw [getElem?_logOf_of_item hitem.symm, reading_some hfound]
    rfl
  | none =>
    rw [hfound] at hitem
    have hle := List.getElem?_eq_none_iff.mp hitem.symm
    rw [reading_none hfound]
    unfold finish
    show (if lexer.finished = true then _ else _ : Lexer × List Event).2 = _
    by_cases hfinished : lexer.finished = true
    · -- The end is on record: the log has been recorded to its last entry.
      rw [if_pos hfinished, List.getElem?_eq_none]
      · rfl
      · rw [length_logOf]
        exact h.finished_iff.mp hfinished
    · have hcalls : calls = (itemsFrom .start source.toList).length := by
        rw [h.finished_iff] at hfinished
        omega
      rw [if_neg hfinished, hcalls, getElem?_logOf_length]
      show [Event.finished lexer.tokens lexer.errors sought.position.line] = [ending source]
      rw [h.tokens_eq, h.errors_eq, h.within.position_of_none hseeking hfound,
        List.take_of_length_le hle]
      rfl

/-- Going on to the end records what is left of the log. -/
theorem Stage.events_of_drainOnto {items : List Item} {events : List Event} {drained : Drained}
    (h : Stage source calls lexer) (hroom : Position.start.HasRoom source.toList)
    (hdrain : lexer.drainOnto items events = .ok drained) :
    drained.events = events.reverse ++ (logOf source).drop calls := by
  fun_induction Lexer.drainOnto lexer items events generalizing calls with
  | case1 => simp at hdrain
  | case2 lexer items events reading hnext hnone =>
    obtain ⟨hitem, -⟩ := h.of_next hroom hnext
    obtain rfl := Except.ok.inj hdrain
    rw [hnone] at hitem
    have hle := List.getElem?_eq_none_iff.mp hitem.symm
    show events.reverse ++ reading.events = _
    rw [h.events_eq hnext, List.drop_eq_getElem?_toList_append, List.drop_of_length_le,
      List.append_nil]
    rw [length_logOf]
    omega
  | case3 lexer items events reading hnext item hsome ih =>
    obtain ⟨-, hstage⟩ := h.of_next hroom hnext
    rw [ih hstage hdrain, List.drop_eq_getElem?_toList_append (i := calls), ← h.events_eq hnext]
    simp

end Lexer

/-! ### Counting calls -/

/-- How many calls of `next` an operation makes on the lexer that it scans, if some items
    are left. -/
def Operation.calls (left : Nat) : Operation → Nat
  | .next => 1
  -- One call for each item, and one that finds the end.
  | .rest | .withoutComments => left + 1
  | .save | .restore | .debug => 0

/-- Each lexer was asked for more items than there are. -/
def Asked.Over (total : Nat) (asked : Asked) : Prop :=
  ∀ calls ∈ asked.lexer :: asked.saved, total < calls

/-- No operation leads back to the items from there. -/
theorem Asked.Over.after {total : Nat} {asked : Asked} (h : asked.Over total)
    (operation : Operation) : (asked.after total operation).Over total := by
  have hlexer := h asked.lexer List.mem_cons_self
  intro calls hcalls
  cases operation with
  | next =>
    rcases List.mem_cons.mp hcalls with rfl | hcalls
    · exact Nat.lt_succ_of_lt hlexer
    · exact h calls (List.mem_cons_of_mem _ hcalls)
  | rest =>
    rcases List.mem_cons.mp hcalls with rfl | hcalls
    · exact Nat.lt_add_right _ hlexer
    · exact h calls (List.mem_cons_of_mem _ hcalls)
  | withoutComments => exact h calls hcalls
  | save =>
    rcases List.mem_cons.mp hcalls with rfl | hcalls
    · exact hlexer
    · exact h calls hcalls
  | restore =>
    obtain ⟨lexer, saved⟩ := asked
    cases saved with
    | nil => exact h calls hcalls
    | cons last saved => exact h calls (List.mem_cons_of_mem _ hcalls)
  | debug => exact h calls hcalls

/-! ### What operations record -/

/-- The items that an operation passes, if the lexer that it scans was asked for some
    before. -/
def Operation.passed (items : List Item) (asked : Nat) (operation : Operation) : List Item :=
  (items.drop asked).take (operation.calls (items.length - asked))

/-- Whether the lexer that an operation scans comes to the end by it. It does not if it, or
    the one that it was copied from, was told of the end before. -/
def Operation.Ends (total asked : Nat) (operation : Operation) : Prop :=
  asked ≤ total ∧ total < asked + operation.calls (total - asked)

instance (total asked : Nat) (operation : Operation) : Decidable (operation.Ends total asked) :=
  inferInstanceAs (Decidable (_ ∧ _))

/-- The cut of the log that an operation takes has the entries for the items that it
    passes, and the one for the end if it goes over it. -/
theorem cut_logOf (source : String) (asked : Nat) (operation : Operation) :
    ((logOf source).drop asked).take
        (operation.calls ((itemsFrom .start source.toList).length - asked))
      = (operation.passed (itemsFrom .start source.toList) asked).map Event.ofItem ++
          if operation.Ends (itemsFrom .start source.toList).length asked
          then [ending source] else [] := by
  unfold logOf Operation.passed
  rw [List.drop_append, List.take_append, List.length_drop, List.length_map, List.map_take,
    List.map_drop]
  congr 1
  by_cases hends : operation.Ends (itemsFrom .start source.toList).length asked
  · obtain ⟨hasked, hcalls⟩ := id hends
    rw [if_pos hends, Nat.sub_eq_zero_of_le hasked, List.drop_zero, List.take_of_length_le]
    rw [List.length_singleton]
    omega
  · rw [if_neg hends]
    by_cases hasked : asked ≤ (itemsFrom .start source.toList).length
    · -- The cut is over before it comes to the end.
      have hcalls := Nat.le_of_not_lt fun hcalls => hends ⟨hasked, hcalls⟩
      rw [List.take_eq_nil_iff]
      omega
    · rw [List.drop_of_length_le, List.take_nil]
      rw [List.length_singleton]
      omega

/-- Going on to the end cuts the log to its end. -/
theorem take_drop_to_end {α : Type} (list : List α) {total : Nat} (asked : Nat)
    (h : list.length ≤ total + 1) :
    (list.drop asked).take (total - asked + 1) = list.drop asked := by
  apply List.take_of_length_le
  rw [List.length_drop]
  omega

/-- What an operation that scans answers, by the items that it passes. -/
def Operation.answer? (passed : List Item) : Operation → Option Answer
  | .next => some (.item passed.head?)
  | .rest => some (.items passed)
  | .withoutComments => some (.items (passed.filter fun item => !item.isComment))
  | .save | .restore | .debug => none

/-- What there is to say of an operation on a session whose lexers were asked for so many
    items before: `ending` is the entry that is recorded at the end. -/
structure Records (source : String) (items : List Item) (ending : Event) (asked : Asked)
    (operation : Operation) (outcome : Outcome) : Prop where
  /-- The lexers are led on by the calls that are counted. -/
  counted : outcome.session.Counted source (asked.after items.length operation)
  /-- A lexer is finished once it was asked for more items than there are. -/
  finished_iff : outcome.session.lexer.finished = true ↔
    items.length < (asked.after items.length operation).lexer
  /-- What is passed is answered, but for the comments that are left out. -/
  answer_eq : ∀ answer, operation.answer? (operation.passed items asked.lexer) = some answer →
    outcome.answer = answer
  /-- Each item that is passed is recorded, in order, and then the end. -/
  events_eq : outcome.events
    = (operation.passed items asked.lexer).map Event.ofItem ++
        if operation.Ends items.length asked.lexer then [ending] else []
  /-- There is a trace of each token. -/
  traces_eq : outcome.events.filter (fun event => event.level = .trace)
    = ((operation.passed items asked.lexer).filterMap Item.token?).map
        fun t => .token t.kind t.line
  /-- There is a warning of each illegal character. -/
  warnings_eq : outcome.events.filter (fun event => event.level = .warn)
    = ((operation.passed items asked.lexer).filterMap Item.illegal?).map
        fun report => .illegal report.character report.position.line
  /-- There is nothing else but the entry for the end. -/
  debugs_eq : outcome.events.filter (fun event => event.level = .debug)
    = if operation.Ends items.length asked.lexer then [ending] else []

theorem Records.events_eq_nil {source : String} {items : List Item} {ending : Event}
    {asked : Asked} {operation : Operation} {outcome : Outcome}
    (h : Records source items ending asked operation outcome) (hover : asked.Over items.length) :
    outcome.events = [] := by
  have hlexer := hover asked.lexer List.mem_cons_self
  rw [h.events_eq, if_neg fun hends => Nat.not_le_of_lt hlexer hends.1, Operation.passed,
    List.drop_of_length_le (Nat.le_of_lt hlexer), List.take_nil]
  rfl

namespace Session

section perform

variable {source : String} {asked : Asked} {session : Session} {operation : Operation}
  {outcome : Outcome} (h : Counted source asked session)
  (hroom : Position.start.HasRoom source.toList)
  (hperform : session.perform operation = .ok outcome)

include h hroom hperform

/-- An operation that scans answers what it passes. -/
theorem Counted.answer_eq :
    ∀ answer, operation.answer? (operation.passed (itemsFrom .start source.toList) asked.lexer)
      = some answer → outcome.answer = answer := by
  have hstage := Lexer.stage_of_advanced hroom h.lexer_eq
  have hitems := take_drop_to_end (itemsFrom .start source.toList) asked.lexer (Nat.le_succ _)
  intro answer hanswer
  cases operation with
  | next =>
    obtain ⟨reading, hnext, hreading⟩ := exists_of_bind_eq_ok hperform
    obtain rfl := Except.ok.inj hreading
    obtain rfl := Option.some.inj hanswer
    show Answer.item reading.item = .item (List.head? (List.take 1 _))
    rw [(hstage.of_next hroom hnext).1, List.head?_take, if_neg Nat.one_ne_zero, List.head?_drop]
  | rest =>
    obtain ⟨drained, hdrain, hdrained⟩ := exists_of_bind_eq_ok hperform
    obtain rfl := Except.ok.inj hdrained
    obtain rfl := Option.some.inj hanswer
    exact congrArg Answer.items ((hstage.items_of_drain hroom hdrain).trans hitems.symm)
  | withoutComments =>
    obtain ⟨drained, hdrain, rfl⟩ := exists_drain_of_withoutComments hperform
    obtain rfl := Option.some.inj hanswer
    rw [hstage.items_of_drain hroom hdrain]
    exact congrArg (fun items => Answer.items (items.filter fun item => !item.isComment))
      hitems.symm
  | save => exact nomatch hanswer
  | restore => exact nomatch hanswer
  | debug => exact nomatch hanswer

/-- An operation records a cut of the log, as long as the calls that it makes. -/
theorem Counted.events_eq :
    outcome.events = ((logOf source).drop asked.lexer).take
      (operation.calls ((itemsFrom .start source.toList).length - asked.lexer)) := by
  have hstage := Lexer.stage_of_advanced hroom h.lexer_eq
  -- Whoever goes on to the end takes the log to its end.
  have hlog := take_drop_to_end (logOf source) asked.lexer (Nat.le_of_eq (length_logOf source))
  cases operation with
  | next =>
    obtain ⟨reading, hnext, hreading⟩ := exists_of_bind_eq_ok hperform
    obtain rfl := Except.ok.inj hreading
    show reading.events = List.take 1 _
    rw [hstage.events_eq hnext, List.take_one, List.head?_drop]
  | rest =>
    obtain ⟨drained, hdrain, hdrained⟩ := exists_of_bind_eq_ok hperform
    obtain rfl := Except.ok.inj hdrained
    exact (hstage.events_of_drainOnto hroom hdrain).trans hlog.symm
  | withoutComments =>
    obtain ⟨drained, hdrain, rfl⟩ := exists_drain_of_withoutComments hperform
    exact (hstage.events_of_drainOnto hroom hdrain).trans hlog.symm
  | save =>
    obtain rfl := Except.ok.inj hperform
    rfl
  | restore =>
    obtain ⟨lexer, saved⟩ := session
    cases saved with
    | nil =>
      obtain rfl := Except.ok.inj hperform
      rfl
    | cons last saved =>
      obtain rfl := Except.ok.inj hperform
      rfl
  | debug =>
    obtain rfl := Except.ok.inj hperform
    rfl

/-- Each operation keeps to the counts and records what it should. -/
theorem Counted.records :
    Records source (itemsFrom .start source.toList) (ending source) asked operation outcome := by
  have hafter := h.of_perform hroom hperform
  have hcut := (h.events_eq hroom hperform).trans (cut_logOf source asked.lexer operation)
  refine ⟨hafter, (Lexer.stage_of_advanced hroom hafter.lexer_eq).finished_iff,
    h.answer_eq hroom hperform, hcut, ?_, ?_, ?_⟩
  · rw [hcut, List.filter_append, filter_trace_map_ofItem]
    split <;> simp [ending, Event.level]
  · rw [hcut, List.filter_append, filter_warn_map_ofItem]
    split <;> simp [ending, Event.level]
  · rw [hcut, List.filter_append, filter_debug_map_ofItem, List.nil_append,
      apply_ite (List.filter _)]
    rfl

end perform

/-! ### Runs -/

variable {source : String} {asked : Asked} {session : Session}

/-- Where all lexers were asked for more items than there are, nothing is recorded any
    more. -/
theorem Steps.events_eq_nil {last : Session} {operations : List Operation}
    {outcomes : List Outcome} (h : Steps session operations outcomes last)
    (hcounted : Counted source asked session) (hroom : Position.start.HasRoom source.toList)
    (hover : asked.Over (itemsFrom .start source.toList).length) :
    ∀ outcome ∈ outcomes, outcome.events = [] := by
  induction h generalizing asked with
  | done session => simp
  | @more _ _ operation _ _ _ hperform hmore ih =>
    have hrecords := hcounted.records hroom hperform
    intro other hother
    rcases List.mem_cons.mp hother with rfl | hother
    · exact hrecords.events_eq_nil hover
    · exact ih hrecords.counted (hover.after operation) other hother

end Session

/-- **The log**: whatever operations are carried out on a session of a source, each of them
    records the items that it passes, in order and whether or not they are left out of its
    answer, and behind them the end, if the lexer comes to it and neither it nor any that
    it was copied from had come to it before. The entry for the end has the counts of the
    whole source, whichever lexer records it. On a lexer that is finished, and on all
    copies of it, nothing more is recorded. -/
theorem operations_record_what_they_pass (source : String)
    (hlines : source.toList.count '\n' ≤ 4294967294) :
    ∃ drained tokens reports lines,
      (Lexer.ofSource source).drain = .ok drained ∧ tokenize source = .ok (tokens, reports) ∧
      lines.toNat = 1 + source.toList.count '\n' ∧
      ∀ operations, ∃ outcomes, (Session.ofSource source).run operations = .ok outcomes ∧
        (∀ before operation behind, operations = before ++ operation :: behind →
          ∃ early outcome late, outcomes = early ++ outcome :: late ∧
            early.length = before.length ∧
            Records source drained.items (.finished tokens.length reports.length lines)
              (before.foldl (Asked.after drained.items.length) .start) operation outcome) ∧
        ∀ session ∈ Session.ofSource source :: outcomes.map Outcome.session,
          ∀ lexer ∈ session.lexer :: session.saved, lexer.finished = true →
            ∀ further, ∃ silent, (Session.mk lexer []).run further = .ok silent ∧
              ∀ outcome ∈ silent, outcome.events = [] := by
  have hroom := Position.hasRoom_start hlines
  obtain ⟨drained, hdrain, hitems⟩ := Lexer.exists_drain_ofSource hlines
  refine ⟨drained, _, _, (Position.start.after source.toList).line, hdrain, tokenize_eq hdrain,
    Position.toNat_line_after hroom, ?_⟩
  rw [hitems]
  intro operations
  have hstart := Session.counted_ofSource source
  obtain ⟨outcomes, last, hsteps⟩ := hstart.exists_steps hroom operations
  refine ⟨outcomes, hsteps.run_eq, ?_, ?_⟩
  · rintro before operation behind rfl
    obtain ⟨early, middle, outcome, late, houtcomes, hlength, hbefore, hperform⟩ :=
      hsteps.exists_perform
    exact ⟨early, outcome, late, houtcomes, hlength,
      (hbefore.counted hstart hroom).records hroom hperform⟩
  · intro session hsession lexer hlexer hfinished further
    obtain ⟨asked, hcounted⟩ := hsteps.exists_counted hstart hroom session hsession
    obtain ⟨calls, hcalls⟩ := hcounted.exists_advanced lexer hlexer
    -- A session on this lexer alone has only copies of it.
    have halone : Session.Counted source ⟨calls, []⟩ ⟨lexer, []⟩ := ⟨hcalls, .nil⟩
    obtain ⟨silent, last, hsilent⟩ := halone.exists_steps hroom further
    refine ⟨silent, hsilent.run_eq, hsilent.events_eq_nil halone hroom ?_⟩
    intro other hother
    obtain rfl := List.mem_singleton.mp hother
    exact (Lexer.stage_of_advanced hroom hcalls).finished_iff.mp hfinished

/-- Of `@#`, a copy that starts at the comment records it although it is left out, and then
    the end of the whole, which the lexer has come to and gone back from before. -/
theorem operations_record_what_they_pass_comment :
    (String.ofList ['@', '#']).toList.count '\n' ≤ 4294967294 ∧
    ∃ outcomes early outcome late lines,
      (Session.ofSource (String.ofList ['@', '#'])).run
        [.next, .save, .rest, .restore, .withoutComments] = .ok outcomes ∧
      outcomes = early ++ outcome :: late ∧ early.length = 4 ∧
      outcome.answer = .items [] ∧
      outcome.events = [.token .comment 1, .finished 1 1 lines] := by
  have hlines : (String.ofList ['@', '#']).toList.count '\n' ≤ 4294967294 := by
    rw [String.toList_ofList]
    decide
  obtain ⟨drained, tokens, reports, lines, hdrain, htokenize, -, hruns⟩ :=
    operations_record_what_they_pass (String.ofList ['@', '#']) hlines
  obtain ⟨outcomes, hrun, hrecords, -⟩ := hruns [.next, .save, .rest, .restore, .withoutComments]
  obtain ⟨early, outcome, late, houtcomes, hearly, hlast⟩ :=
    hrecords [.next, .save, .rest, .restore] .withoutComments [] rfl
  obtain ⟨rfl, rfl⟩ := eq_of_tokenize htokenize
  have hitems : itemsFrom .start ['@', '#']
      = [.illegal ⟨'@', 1, 0⟩, .token ⟨.comment, .text "#", 1, 1, 2⟩] := by
    have hsign : Piece.first? ['@', '#'] = some ⟨.illegal '@', ['@'], ['#']⟩ := rfl
    have hcomment : Piece.first? ['#'] = some ⟨.token .comment, ['#'], []⟩ := rfl
    rw [itemsFrom_of_first? hsign, itemsFrom_of_first? hcomment, itemsFrom_nil]
    rfl
  rw [Lexer.items_eq_of_drain hdrain, String.toList_ofList, hitems] at hlast
  refine ⟨hlines, outcomes, early, outcome, late, lines, hrun, houtcomes, hearly, ?_, ?_⟩
  · exact hlast.answer_eq _ rfl
  · rw [hlast.events_eq]
    rfl

end ExprScan
