import ExprScan.Proofs.Stream

/-! # Coverage

  Scanning from the start passes every character of a source once. Step after
  step, the crossings are made at cursors that follow one another, their texts
  put together are the source, and each says what its text is
  (`Crossing.Covers`).

  A lexer gives the items among the crossings and nothing else. Wherever it
  has got to, it starts its next item at the first character behind the
  cursor that is no separator (`Lexer.Answers`). The invariant is that the
  lexer stands between two characters, and that what it has given and what is
  left are the items of the source (`Lexer.Within`).
-/

namespace ExprScan

/-! ### Crossings -/

/-- A step of a scan, with the text between its two cursors. -/
structure Crossing where
  cursor : Position
  found : Step
  text : List Char

/-- The crossings of a scan from a cursor to the end, and the last cursor. -/
inductive Trail (source : String) : Position → List Crossing → Position → Prop where
  | ended {pos : Position} (hstep : step source pos = .ok none) : Trail source pos [] pos
  | passed {pos last : Position} {found : Step} {text : List Char} {crossings : List Crossing}
      (hstep : step source pos = .ok (some found))
      (htext : Text.slice source.toList pos.offset found.next.offset = .ok text)
      (hmore : Trail source found.next crossings last) :
      Trail source pos (⟨pos, found, text⟩ :: crossings) last

/-- What is found says what the text of the crossing is. -/
def Crossing.Covers (source : String) (crossing : Crossing) : Prop :=
  match crossing.found.scanned with
  | .token t =>
    t.span = ⟨crossing.cursor.offset, crossing.found.next.offset⟩ ∧
      t.lexeme source = .ok (String.ofList crossing.text)
  | .illegal report =>
    report.position = crossing.cursor ∧ crossing.text = [report.character]
  | .blank => ∀ c ∈ crossing.text, isBlank c = true
  | .lineBreaks _ => ∀ c ∈ crossing.text, isLineBreak c = true

/-- The outcomes of scanning on are the crossings and then the end. -/
theorem Trail.steps_eq {source : String} {pos last : Position} {crossings : List Crossing}
    (h : Trail source pos crossings last) (extra : Nat) :
    steps source pos (crossings.length + 1 + extra)
      = crossings.map (fun crossing => .ok (some crossing.found)) ++ [.ok none] := by
  induction h with
  | ended hstep =>
    rw [show ([] : List Crossing).length + 1 + extra = extra + 1 by simp [Nat.add_comm], steps,
      hstep]
    rfl
  | @passed pos last found text crossings hstep htext hmore ih =>
    have hlength : (⟨pos, found, text⟩ :: crossings : List Crossing).length + 1 + extra
        = crossings.length + 1 + extra + 1 := by
      rw [List.length_cons]
      omega
    rw [hlength, steps, hstep]
    simp only [ih, List.map_cons, List.cons_append]

namespace Passage

/-- The crossing of a piece. -/
def crossing (passage : Passage) : Crossing := ⟨passage.cursor, passage.found, passage.text⟩

/-- Scanning crosses the pieces of a text, one after the other. -/
theorem trail {source : String} {pos : Position} {before rest : List Char}
    (hsource : source.toList = before ++ rest) (hoffset : pos.offset = Text.byteLength before)
    (hroom : pos.HasRoom rest) :
    Trail source pos ((passages pos rest).map crossing) (pos.after rest) := by
  induction rest using Piece.text_induction generalizing pos before with
  | nil =>
    rw [List.append_nil] at hsource
    rw [passages_nil, Position.after_nil]
    exact Trail.ended (step_end (by rw [hoffset, hsource]))
  | piece category text rest hlabels hsettled ih =>
    have hfirst := Piece.first?_append_iff.mpr ⟨hlabels, hsettled⟩
    have hstep := step_of_first? hsource hoffset hfirst hroom
    have htext : Text.slice source.toList pos.offset (pos.after text).offset = .ok text := by
      rw [Position.offset_after, hsource, hoffset]
      exact Text.slice_byteLength_append before text rest
    -- From there on the piece is part of what is before the cursor.
    have hbehind : source.toList = (before ++ text) ++ rest := by
      rw [hsource, List.append_assoc]
    have hnext : (pos.after text).offset = Text.byteLength (before ++ text) := by
      rw [Position.offset_after, Text.byteLength_append, hoffset]
    rw [passages_append hlabels hsettled, Position.after_append]
    exact Trail.passed hstep htext (ih hbehind hnext hroom.right)

end Passage

/-- The pieces of a text put together are the text. -/
theorem flatten_passages (pos : Position) (text : List Char) :
    ((passages pos text).map Passage.text).flatten = text := by
  induction text using Piece.text_induction generalizing pos with
  | nil => simp
  | piece category text rest hlabels hsettled ih =>
    rw [passages_append hlabels hsettled, List.map_cons, List.flatten_cons, ih]

/-- Each piece of a text stands somewhere in it. -/
theorem exists_of_mem_passages {pos : Position} {text : List Char} {passage : Passage}
    (h : passage ∈ passages pos text) :
    ∃ before behind, text = before ++ (passage.text ++ behind) ∧
      passage.cursor = pos.after before ∧ passage.category.Labels passage.text := by
  induction text using Piece.text_induction generalizing pos with
  | nil => simp at h
  | piece category text rest hlabels hsettled ih =>
    rw [passages_append hlabels hsettled] at h
    rcases List.mem_cons.mp h with rfl | h
    · exact ⟨[], rest, rfl, (Position.after_nil pos).symm, hlabels⟩
    · obtain ⟨before, behind, hrest, hcursor, hpassage⟩ := ih h
      refine ⟨text ++ before, behind, ?_, ?_, hpassage⟩
      · rw [hrest, List.append_assoc]
      · rw [hcursor, Position.after_append]

/-- Each item of a text is a piece that stands somewhere in it. -/
theorem exists_of_mem_itemsFrom {pos : Position} {text : List Char} {item : Item}
    (h : item ∈ itemsFrom pos text) :
    ∃ (category : Category) (before word behind : List Char),
      text = before ++ (word ++ behind) ∧ category.Labels word ∧
      (category.unit (pos.after before) word).item? = some item := by
  obtain ⟨⟨cursor, category, word⟩, hpassage, hitem⟩ := List.mem_filterMap.mp h
  obtain ⟨before, behind, htext, hcursor, hlabels⟩ := exists_of_mem_passages hpassage
  obtain rfl : cursor = pos.after before := hcursor
  exact ⟨category, before, word, behind, htext, hlabels, hitem⟩

/-- Ahead of the first item of a text stand separators only. -/
theorem exists_gap_of_itemsFrom_eq {pos : Position} {text : List Char} {item : Item}
    {later : List Item} (h : itemsFrom pos text = item :: later) :
    ∃ (gap : List Char) (category : Category) (word rest : List Char),
      text = gap ++ (word ++ rest) ∧ AllSeparators gap ∧
      (category.unit (pos.after gap) word).item? = some item := by
  induction text using Piece.text_induction generalizing pos with
  | nil => simp at h
  | piece category text rest hlabels hsettled ih =>
    rw [itemsFrom_append hlabels hsettled] at h
    cases hunit : (category.unit pos text).item? with
    | none =>
      rw [hunit] at h
      have hfront := hlabels.allSeparators (Category.isItem_of_item?_eq_none hunit)
      obtain ⟨gap, kind, word, behind, rfl, hgap, hitem⟩ := ih h
      refine ⟨text ++ gap, kind, word, behind, ?_, hfront.append hgap, ?_⟩
      · rw [List.append_assoc]
      · rw [Position.after_append, hitem]
    | some first =>
      rw [hunit, Option.toList_some, List.singleton_append] at h
      obtain ⟨rfl, -⟩ := List.cons.inj h
      refine ⟨[], category, text, rest, rfl, by simp [AllSeparators], ?_⟩
      rw [Position.after_nil, hunit]

/-- Each report of a text is of a character that stands there and is no separator. -/
theorem exists_of_illegal_mem_itemsFrom {pos : Position} {text : List Char} {report : Illegal}
    (h : .illegal report ∈ itemsFrom pos text) :
    ∃ before behind, text = before ++ report.character :: behind ∧
      report.position = pos.after before ∧ isSeparator report.character = false := by
  obtain ⟨category, before, word, behind, htext, hlabels, hitem⟩ := exists_of_mem_itemsFrom h
  obtain ⟨rfl, hposition⟩ := Category.item?_unit_eq_illegal.mp hitem
  obtain rfl := hlabels.eq_singleton
  exact ⟨before, behind, htext, hposition, hlabels.not_isSeparator rfl⟩

/-- The line of an item is counted from the line feeds before it. -/
theorem exists_toNat_line_of_mem_itemsFrom {pos : Position} {text : List Char} {item : Item}
    (hroom : pos.HasRoom text) (h : item ∈ itemsFrom pos text) :
    ∃ before behind, text = before ++ behind ∧
      item.span.start = pos.offset + Text.byteLength before ∧
      item.line.toNat = pos.line.toNat + before.count '\n' := by
  obtain ⟨category, before, word, behind, rfl, hlabels, hitem⟩ := exists_of_mem_itemsFrom h
  refine ⟨before, word ++ behind, rfl, ?_, ?_⟩
  · rw [hlabels.span_eq hitem]
    rfl
  · rw [Category.line_eq_of_item? hitem, Position.toNat_line_after hroom.left]

/-- A text has no more pieces than characters. -/
theorem length_passages_le (pos : Position) (text : List Char) :
    (passages pos text).length ≤ text.length := by
  induction text using Piece.text_induction generalizing pos with
  | nil => simp
  | piece category text rest hlabels hsettled ih =>
    have hpos := List.length_pos_iff.mpr hlabels.ne_nil
    have hrest := ih (pos.after text)
    rw [passages_append hlabels hsettled, List.length_cons, List.length_append]
    omega

/-- A piece in its place is what the step over it says. -/
theorem Passage.covers {source : String} {passage : Passage} {before behind : List Char}
    (hsource : source.toList = before ++ (passage.text ++ behind))
    (hcursor : passage.cursor.offset = Text.byteLength before)
    (hlabels : passage.category.Labels passage.text) : passage.crossing.Covers source := by
  obtain ⟨cursor, category, text⟩ := passage
  match category with
  | .token kind =>
    have htext := Text.slice_byteLength_append before text behind
    refine ⟨rfl, ?_⟩
    show (return String.ofList (← Text.slice source.toList cursor.offset
      (cursor.offset + Text.byteLength text)) : Except Fault String) = .ok (String.ofList text)
    rw [hsource, hcursor, htext]
    rfl
  | .illegal c => exact ⟨rfl, hlabels.eq_singleton⟩
  | .blank =>
    have hspells : Category.blank.Spells text := hlabels.spells (by simp)
    exact hspells.2
  | .lineBreaks =>
    have hspells : Category.lineBreaks.Spells text := hlabels.spells (by simp)
    exact hspells.2

/-! ### The gap before an item -/

/-- The next item starts at the first character that is no separator. -/
theorem Seeking.exists_gap {pos : Position} {text : List Char} {sought : Sought}
    (h : Seeking pos text sought) :
    ∃ gap behind, text = gap ++ behind ∧ AllSeparators gap ∧
      (∀ c, behind.head? = some c → isSeparator c = false) ∧
      (sought.item = none ↔ behind = []) ∧
      ∀ item, sought.item = some item → item.span.start = pos.offset + Text.byteLength gap := by
  cases h with
  | ended hgap => exact ⟨text, [], by simp, hgap, by simp, by simp, by simp⟩
  | @found gap text rest category item hgap hlabels hsettled hitem =>
    refine ⟨gap, text ++ rest, rfl, hgap, ?_, ?_, ?_⟩
    · intro c hc
      obtain ⟨d, more, rfl⟩ := List.exists_cons_of_ne_nil hlabels.ne_nil
      obtain rfl : d = c := Option.some.inj hc
      exact hlabels.not_isSeparator (Category.isItem_of_item? hitem)
    · simp [hlabels.ne_nil]
    · intro other hother
      obtain rfl := Option.some.inj hother
      rw [hlabels.span_eq hitem]
      rfl

/-- The cursor is left where the item ends. -/
theorem Seeking.stop_eq {pos : Position} {text : List Char} {sought : Sought} {item : Item}
    (h : Seeking pos text sought) (hitem : sought.item = some item) :
    sought.position.offset = item.span.stop := by
  cases h with
  | ended hgap => simp at hitem
  | found hgap hlabels hsettled hfound =>
    obtain rfl := Option.some.inj hitem
    rw [hlabels.span_eq hfound]
    rfl

/-! ### Lexers on the way -/

namespace Lexer

/-- What has been given and which lexer is left when one has been asked for
    its next item any number of times, also after the end. -/
inductive Reaches (lexer : Lexer) : List Item → Lexer → Prop where
  | unasked : Reaches lexer [] lexer
  | asked {given : List Item} {reached : Lexer} {reading : Reading}
      (hbefore : Reaches lexer given reached) (hnext : reached.next = .ok reading) :
      Reaches lexer (given ++ reading.item.toList) reading.lexer

/-- The lexer stands between two characters of a source, and the items of the
    source are those given before and those ahead. -/
structure Within (source : String) (given : List Item) (lexer : Lexer) : Prop where
  exists_before : ∃ before, source.toList = before ++ lexer.rest ∧
    lexer.position = Position.start.after before
  items_eq : itemsFrom .start source.toList = given ++ itemsFrom lexer.position lexer.rest

/-- What a lexer says when it is asked for its next item: the item stands
    behind the separators at the cursor, and there is none at the end only. -/
structure Answers (source : String) (items given : List Item) (lexer : Lexer)
    (reading : Reading) : Prop where
  exists_gap : ∃ gap behind,
    Text.dropBytes lexer.position.offset source.toList = .ok (gap ++ behind) ∧
    AllSeparators gap ∧ (∀ c, behind.head? = some c → isSeparator c = false) ∧
    (reading.item = none ↔ behind = []) ∧
    ∀ item, reading.item = some item →
      item.span.start = lexer.position.offset + Text.byteLength gap
  stops : ∀ item, reading.item = some item → reading.lexer.position.offset = item.span.stop
  in_order : given ++ reading.item.toList <+: items
  complete : reading.item = none → given = items

variable {source : String} {given : List Item} {lexer : Lexer}

theorem within_ofSource (source : String) : Within source [] (ofSource source) := by
  refine ⟨⟨[], rfl, ?_⟩, rfl⟩
  exact (Position.after_nil .start).symm

theorem Within.hasRoom (h : Within source given lexer)
    (hroom : Position.start.HasRoom source.toList) : lexer.position.HasRoom lexer.rest := by
  obtain ⟨before, hsource, hposition⟩ := h.exists_before
  rw [hsource] at hroom
  rw [hposition]
  exact hroom.right

theorem Within.dropBytes (h : Within source given lexer) :
    Text.dropBytes lexer.position.offset source.toList = .ok lexer.rest := by
  obtain ⟨before, hsource, hposition⟩ := h.exists_before
  rw [hsource, hposition, Position.offset_after_start, Text.dropBytes_byteLength_append]

/-- Asking for the next item keeps the lexer within the source. -/
theorem Within.reading (h : Within source given lexer) {sought : Sought}
    (hseeking : Seeking lexer.position lexer.rest sought) :
    Within source (given ++ (lexer.reading sought).item.toList) (lexer.reading sought).lexer := by
  -- The cursor moves over what was passed, and the item found leaves what is
  -- ahead for what has been given.
  obtain ⟨before, hsource, hposition⟩ := h.exists_before
  obtain ⟨passed, hrest, hnext⟩ := hseeking.exists_passed
  constructor
  · refine ⟨before ++ passed, ?_, ?_⟩
    · rw [rest_reading, List.append_assoc, ← hrest, hsource]
    · rw [position_reading, hnext, hposition, Position.after_append]
  · rw [item_reading, position_reading, rest_reading, List.append_assoc,
      ← hseeking.itemsFrom_eq, h.items_eq]

theorem Reaches.within (h : Reaches (ofSource source) given lexer) :
    Within source given lexer := by
  induction h with
  | unasked => exact within_ofSource source
  | asked hbefore hnext ih =>
    obtain ⟨sought, hseeking, rfl⟩ := exists_seeking_of_next hnext
    exact ih.reading hseeking

/-- What a lexer gives is among the items of its source. -/
theorem Reaches.mem_itemsFrom (h : Reaches (ofSource source) given lexer) {item : Item}
    (hitem : item ∈ given) : item ∈ itemsFrom .start source.toList := by
  rw [h.within.items_eq]
  exact List.mem_append_left _ hitem

/-- The item in the midst of what has been given was looked for and found, and those behind it
    were given from there on. -/
theorem Reaches.exists_seeking {first : Lexer} {earlier later : List Item} {item : Item}
    (h : Reaches first given lexer) (hgiven : given = earlier ++ item :: later) :
    ∃ reached sought, Reaches first earlier reached ∧
      Seeking reached.position reached.rest sought ∧ sought.item = some item ∧
      Reaches (reached.reading sought).lexer later lexer := by
  induction h generalizing later with
  | unasked => simp at hgiven
  | @asked given reached _ hbefore hnext ih =>
    have hasked := hnext
    obtain ⟨sought, hseeking, rfl⟩ := exists_seeking_of_next hnext
    rw [item_reading] at hgiven
    cases hsought : sought.item with
    | none =>
      rw [hsought, Option.toList_none, List.append_nil] at hgiven
      obtain ⟨middle, found, hmiddle, hfound, hitem, hlater⟩ := ih hgiven
      have hmore := hlater.asked hasked
      rw [item_reading, hsought, Option.toList_none, List.append_nil] at hmore
      exact ⟨middle, found, hmiddle, hfound, hitem, hmore⟩
    | some last =>
      rw [hsought, Option.toList_some] at hgiven
      rcases later.eq_nil_or_concat' with rfl | ⟨between, other, rfl⟩
      · obtain ⟨rfl, hlast⟩ := List.append_inj' hgiven rfl
        obtain rfl := List.singleton_inj.mp hlast
        exact ⟨reached, sought, hbefore, hseeking, hsought, .unasked⟩
      · rw [← List.cons_append, ← List.append_assoc] at hgiven
        obtain ⟨hbetween, hlast⟩ := List.append_inj' hgiven rfl
        obtain rfl := List.singleton_inj.mp hlast
        obtain ⟨middle, found, hmiddle, hfound, hitem, hlater⟩ := ih hbetween
        have hmore := hlater.asked hasked
        rw [item_reading, hsought, Option.toList_some] at hmore
        exact ⟨middle, found, hmiddle, hfound, hitem, hmore⟩

/-- Going to the end is asking for one item after the other. -/
theorem Reaches.of_drainOnto {start reached : Lexer} {items : List Item} {events : List Event}
    {drained : Drained} (hbefore : Reaches start items.reverse reached)
    (h : reached.drainOnto items events = .ok drained) :
    Reaches start drained.items drained.lexer := by
  fun_induction drainOnto reached items events with
  | case1 => simp at h
  | case2 reached items events reading hnext hitem =>
    obtain rfl := Except.ok.inj h
    have hlast := hbefore.asked hnext
    rwa [hitem, Option.toList_none, List.append_nil] at hlast
  | case3 reached items events reading hnext item hitem ih =>
    have hone := hbefore.asked hnext
    rw [hitem, Option.toList_some, ← List.reverse_cons] at hone
    exact ih hone h

theorem Reaches.of_drain {drained : Drained} (h : lexer.drain = .ok drained) :
    Reaches lexer drained.items drained.lexer :=
  Reaches.of_drainOnto .unasked h

/-- As long as the lines of a text can be numbered, all its items are given in the end. -/
theorem exists_reaches_ofList {text : List Char} (hlines : text.count '\n' ≤ 4294967294) :
    ∃ reached, Reaches (ofSource (String.ofList text)) (itemsFrom .start text) reached := by
  have htext : (String.ofList text).toList = text := String.toList_ofList
  rw [← htext] at hlines
  obtain ⟨drained, hdrain, hitems⟩ := exists_drain_ofSource hlines
  rw [htext] at hitems
  rw [← hitems]
  exact ⟨drained.lexer, Reaches.of_drain hdrain⟩

/-- A lexer within a source answers rightly. -/
theorem Within.answers (h : Within source given lexer) {sought : Sought}
    (hseeking : Seeking lexer.position lexer.rest sought) :
    Answers source (itemsFrom .start source.toList) given lexer (lexer.reading sought) := by
  have hitems := h.items_eq
  have hahead := hseeking.itemsFrom_eq
  refine ⟨?_, ?_, ?_, ?_⟩
  · obtain ⟨gap, behind, hrest, hgap, hhead, hnone, hstart⟩ := hseeking.exists_gap
    rw [h.dropBytes, item_reading]
    exact ⟨gap, behind, by rw [hrest], hgap, hhead, hnone, hstart⟩
  · intro item hitem
    rw [item_reading] at hitem
    rw [position_reading]
    exact hseeking.stop_eq hitem
  · rw [item_reading, hitems, hahead]
    exact ⟨itemsFrom sought.position sought.rest, List.append_assoc _ _ _⟩
  · intro hnone
    rw [item_reading] at hnone
    rw [hitems, (exhausted_of_ended hseeking hnone).1, List.append_nil]

end Lexer

/-! ### Whole scans -/

/-- **Coverage**: as long as the lines of a source can be numbered, scanning
    it from the start ends after at most as many steps as there are
    characters, no step fails, and every character is passed once by a step
    that says what it is. The lexer gives the items among the crossings, one
    behind the other, and it answers from wherever it has got to. -/
theorem scan_passes_every_character (source : String)
    (hlines : source.toList.count '\n' ≤ 4294967294) :
    ∃ (crossings : List Crossing) (last : Position) (drained : Lexer.Drained),
      Trail source .start crossings last ∧
      (∀ extra, steps source .start (crossings.length + 1 + extra)
        = crossings.map (fun crossing => .ok (some crossing.found)) ++ [.ok none]) ∧
      crossings.length ≤ source.toList.length ∧
      last.offset = Text.byteLength source.toList ∧
      (crossings.map Crossing.text).flatten = source.toList ∧
      (∀ crossing ∈ crossings, crossing.text ≠ [] ∧ crossing.Covers source) ∧
      (Lexer.ofSource source).drain = .ok drained ∧
      drained.items = crossings.filterMap (fun crossing => crossing.found.scanned.item?) ∧
      (drained.items.Pairwise fun first second => first.span.stop ≤ second.span.start) ∧
      (∀ item ∈ drained.items, item.span.start < item.span.stop) ∧
      ∀ given lexer, Lexer.Reaches (.ofSource source) given lexer →
        ∃ reading, lexer.next = .ok reading ∧
          lexer.Answers source drained.items given reading := by
  have hroom := Position.hasRoom_start hlines
  have htrail := Passage.trail (List.nil_append source.toList).symm rfl hroom
  obtain ⟨drained, hdrain, hitems⟩ := Lexer.exists_drain_ofSource hlines
  refine ⟨_, _, drained, htrail, htrail.steps_eq, ?_, ?_, ?_, ?_, hdrain, ?_, ?_, ?_, ?_⟩
  · rw [List.length_map]
    exact length_passages_le .start source.toList
  · exact Position.offset_after_start
  · rw [List.map_map]
    exact flatten_passages .start source.toList
  · intro crossing hcrossing
    -- A crossing is the one of a piece that stands somewhere in the source.
    obtain ⟨passage, hpassage, rfl⟩ := List.mem_map.mp hcrossing
    obtain ⟨before, behind, hsource, hcursor, hlabels⟩ := exists_of_mem_passages hpassage
    have hoffset : passage.cursor.offset = Text.byteLength before := by
      rw [hcursor, Position.offset_after_start]
    exact ⟨hlabels.ne_nil, Passage.covers hsource hoffset hlabels⟩
  · rw [hitems, List.filterMap_map]
    rfl
  · rw [hitems]
    exact pairwise_itemsFrom .start source.toList
  · intro item hitem
    rw [hitems] at hitem
    exact (bounds_of_mem_itemsFrom hitem).2.1
  · intro given lexer hreaches
    have hwithin := hreaches.within
    obtain ⟨sought, hseeking, hnext⟩ := Lexer.exists_next (hwithin.hasRoom hroom)
    rw [hitems]
    exact ⟨_, hnext, hwithin.answers hseeking⟩

/-- The source `1.é` with a line break has five bytes, and a scan passes them all. -/
theorem scan_passes_every_character_five_bytes :
    (String.ofList ['1', '.', 'é', '\n']).toList.count '\n' ≤ 4294967294 ∧
    ∃ (crossings : List Crossing) (last : Position) (drained : Lexer.Drained),
      Trail (String.ofList ['1', '.', 'é', '\n']) .start crossings last ∧
      last.offset = 5 ∧
      (crossings.map Crossing.text).flatten = ['1', '.', 'é', '\n'] ∧
      (Lexer.ofSource (String.ofList ['1', '.', 'é', '\n'])).drain = .ok drained := by
  have hlines : (String.ofList ['1', '.', 'é', '\n']).toList.count '\n' ≤ 4294967294 := by
    rw [String.toList_ofList]
    decide
  obtain ⟨crossings, last, drained, htrail, -, -, hlast, htext, -, hdrain, -⟩ :=
    scan_passes_every_character (String.ofList ['1', '.', 'é', '\n']) hlines
  rw [String.toList_ofList] at hlast htext
  exact ⟨hlines, crossings, last, drained, htrail, hlast, htext, hdrain⟩

end ExprScan
