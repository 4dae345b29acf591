import ExprScan.Proofs.OneLine

/-! # The output of the command

  A run prints one line for each token and five for each illegal character, in
  the order of the source, and one line at the end. `Prints` says which lines
  stand for an item. That the output can be cut back into these lines rests on
  each of them being one line (`Prints.oneLine`).
-/

namespace ExprScan

/-- The lines that stand for an item in the output: one for a token, and five
    for an illegal character. -/
inductive Prints (name source : String) : Item → List String → Prop where
  | token (t : Token) : Prints name source (.token t) [t.display]
  | illegal {report : Illegal} {caret : String}
      (hcaret : (Diagnostic.ofIllegal name source report).caretLine = .ok caret) :
      Prints name source (.illegal report)
        [(Diagnostic.ofIllegal name source report).heading,
          (Diagnostic.ofIllegal name source report).location,
          (Diagnostic.ofIllegal name source report).margin,
          (Diagnostic.ofIllegal name source report).sourceLine, caret]

section prints

variable {name source : String}

theorem Prints.oneLine {item : Item} {lines : List String} (h : Prints name source item lines)
    (hname : OneLine name) {line : String} (hline : line ∈ lines) : OneLine line := by
  cases h with
  | token t =>
    obtain rfl := List.mem_singleton.mp hline
    exact t.oneLine_display
  | @illegal report caret hcaret =>
    have hsplit : line ∈ (Diagnostic.ofIllegal name source report).opening ++ [caret] := hline
    rcases List.mem_append.mp hsplit with hline | hline
    · exact Diagnostic.oneLine_of_mem_opening hname hline
    · obtain rfl := List.mem_singleton.mp hline
      exact Diagnostic.oneLine_of_caretLine hcaret

theorem oneLine_of_mem_flatten {items : List Item} {blocks : List (List String)}
    (h : List.Forall₂ (Prints name source) items blocks) (hname : OneLine name) {line : String}
    (hline : line ∈ blocks.flatten) : OneLine line := by
  induction h with
  | nil => simp at hline
  | cons hprints _ ih =>
    rw [List.flatten_cons] at hline
    rcases List.mem_append.mp hline with hline | hline
    · exact hprints.oneLine hname hline
    · exact ih hline

/-! ### Scanning on -/

namespace Lexer

/-- The items that a lexer has not given yet. -/
def ahead (lexer : Lexer) : List Item := itemsFrom lexer.position lexer.rest

variable {lexer : Lexer} {reading : Reading} {item : Item}

theorem ahead_of_next_none (hnext : lexer.next = .ok reading) (hitem : reading.item = none) :
    lexer.ahead = [] := by
  obtain ⟨sought, hseeking, rfl⟩ := exists_seeking_of_next hnext
  rw [item_reading] at hitem
  exact (exhausted_of_ended hseeking hitem).1

theorem ahead_of_next_some (hnext : lexer.next = .ok reading) (hitem : reading.item = some item) :
    lexer.ahead = item :: reading.lexer.ahead := by
  obtain ⟨sought, hseeking, rfl⟩ := exists_seeking_of_next hnext
  rw [item_reading] at hitem
  unfold ahead
  rw [hseeking.itemsFrom_eq, hitem, position_reading, rest_reading]
  rfl

theorem source_of_next (hnext : lexer.next = .ok reading) :
    reading.lexer.source = lexer.source := by
  obtain ⟨sought, -, rfl⟩ := exists_seeking_of_next hnext
  cases hitem : sought.item with
  | some item =>
    rw [reading_some hitem]
    cases item <;> rfl
  | none =>
    rw [reading_none hitem, finish_fst]
    rfl

theorem hasRoom_of_next (hnext : lexer.next = .ok reading)
    (hroom : lexer.position.HasRoom lexer.rest) :
    reading.lexer.position.HasRoom reading.lexer.rest := by
  obtain ⟨sought, hseeking, rfl⟩ := exists_seeking_of_next hnext
  rw [position_reading, rest_reading]
  exact hseeking.hasRoom hroom

end Lexer

theorem length_filterMap_illegal?_cons (item : Item) (items : List Item) :
    ((item :: items).filterMap Item.illegal?).length
      = item.illegal?.toList.length + (items.filterMap Item.illegal?).length := by
  cases item with
  | token t => exact (Nat.zero_add _).symm
  | illegal report => exact Nat.add_comm _ 1

/-- What is left of a scan can be printed to the end: its lines can be numbered, each illegal
    character can be pointed at, and all of them can be counted. -/
structure Printable (name source : String) (lexer : Lexer) (errors : Nat) : Prop where
  source_eq : lexer.source = source
  hasRoom : lexer.position.HasRoom lexer.rest
  exists_caret : ∀ report, .illegal report ∈ lexer.ahead →
    ∃ caret, (Diagnostic.ofIllegal name source report).caretLine = .ok caret
  errors_le : errors + (lexer.ahead.filterMap Item.illegal?).length ≤ mostErrors

namespace Printable

variable {lexer : Lexer} {errors : Nat} {reading : Lexer.Reading} {item : Item}

/-- An item that is given is one that is left no more, and it may be one more error. -/
theorem next (h : Printable name source lexer errors) (hnext : lexer.next = .ok reading)
    (hitem : reading.item = some item) :
    Printable name source reading.lexer (errors + item.illegal?.toList.length) := by
  have hahead := Lexer.ahead_of_next_some hnext hitem
  constructor
  · rw [Lexer.source_of_next hnext, h.source_eq]
  · exact Lexer.hasRoom_of_next hnext h.hasRoom
  · intro report hreport
    apply h.exists_caret report
    rw [hahead]
    exact List.mem_cons_of_mem item hreport
  · have herrors := h.errors_le
    rwa [hahead, length_filterMap_illegal?_cons, ← Nat.add_assoc] at herrors

/-- A run prints the lines of the items that are left, and counts the errors among them. -/
theorem exists_transcribe (h : Printable name source lexer errors) (printed : List String) :
    ∃ blocks, List.Forall₂ (Prints name source) lexer.ahead blocks ∧
      transcribe name lexer errors printed = ⟨printed.reverse ++ blocks.flatten,
        .scanned (errors + (lexer.ahead.filterMap Item.illegal?).length)⟩ := by
  -- By the calls of `transcribe`: the lines of the item found are printed before those
  -- of the items behind it.
  fun_induction transcribe name lexer errors printed with
  | case1 lexer errors printed fault hnext =>
    obtain ⟨sought, -, hreading⟩ := Lexer.exists_next h.hasRoom
    rw [hnext] at hreading
    exact nomatch hreading
  | case2 lexer errors printed reading hnext hitem =>
    rw [Lexer.ahead_of_next_none hnext hitem]
    exact ⟨[], .nil, by simp⟩
  | case3 lexer errors printed reading hnext token hitem ih =>
    obtain ⟨blocks, hblocks, hmore⟩ := ih (h.next hnext hitem)
    rw [Lexer.ahead_of_next_some hnext hitem, length_filterMap_illegal?_cons, hmore]
    refine ⟨_, .cons (.token token) hblocks, ?_⟩
    simp [Item.illegal?]
  | case4 lexer errors printed reading hnext illegal hitem diagnostic above fault hcaret =>
    have hahead := Lexer.ahead_of_next_some hnext hitem
    obtain ⟨caret, hprinted⟩ := h.exists_caret illegal (hahead ▸ List.mem_cons_self)
    rw [← h.source_eq, hcaret] at hprinted
    exact nomatch hprinted
  | case5 lexer errors printed reading hnext illegal hitem diagnostic above caret hcaret hmost ih =>
    obtain ⟨blocks, hblocks, hmore⟩ := ih (h.next hnext hitem)
    obtain rfl := h.source_eq
    rw [Lexer.ahead_of_next_some hnext hitem, length_filterMap_illegal?_cons, hmore]
    refine ⟨_, .cons (.illegal hcaret) hblocks, ?_⟩
    simp [Item.illegal?, above, diagnostic, Diagnostic.opening, Nat.add_assoc]
  | case6 lexer errors printed reading hnext illegal hitem diagnostic above caret hcaret hmost =>
    have herrors := h.errors_le
    rw [Lexer.ahead_of_next_some hnext hitem, length_filterMap_illegal?_cons] at herrors
    have hone : (Item.illegal illegal).illegal?.toList.length = 1 := rfl
    omega

end Printable

end prints

/-! ### Cutting the output -/

/-- Cut at its line feeds, a text made of lines falls into these lines. -/
theorem splitOn_unlines {lines : List String} (h : ∀ line ∈ lines, OneLine line) :
    (unlines lines).toList.splitOn '\n' = lines.map String.toList ++ [[]] := by
  induction lines with
  | nil => rfl
  | cons line lines ih =>
    obtain ⟨hline, hlines⟩ := List.forall_mem_cons.mp h
    have htext : (unlines (line :: lines)).toList
        = line.toList ++ '\n' :: (unlines lines).toList := by
      unfold unlines
      rw [String.toList_join, String.toList_join, List.map_cons, List.flatMap_cons,
        String.toList_append, List.append_assoc]
      rfl
    rw [htext, List.splitOn_append_cons_self_of_not_mem hline, ih hlines]
    rfl

/-! ### Running the command -/

theorem decode_toByteArray (source : String) : decode source.toByteArray = .ok source := by
  unfold decode String.fromUTF8?
  rw [dif_pos source.isValidUTF8]
  rfl

theorem decode_of_forall_ne {bytes : ByteArray}
    (h : ∀ source : String, source.toByteArray ≠ bytes) : decode bytes = .error .notText := by
  have hinvalid : ¬ bytes.IsValidUTF8 := by
    intro hvalid
    exact h (String.fromUTF8 bytes hvalid) rfl
  unfold decode String.fromUTF8?
  rw [dif_neg hinvalid]

/-- A file is scanned if its bytes decode, and else it counts as unreadable. -/
theorem run_of_read {read : String → Except ReadFailure ByteArray} {name : String}
    {bytes : ByteArray} (hread : read name = .ok bytes) :
    (Request.ofArguments [name]).run read =
      match decode bytes with
      | .ok source => scanSource name source
      | .error failure => ⟨[], .unreadable name failure⟩ := by
  show (match read name >>= decode with
    | .ok source => scanSource name source
    | .error failure => ⟨[], .unreadable name failure⟩) = _
  rw [hread]
  rfl

/-- A file that cannot be read counts as unreadable, too. -/
theorem run_of_read_error {read : String → Except ReadFailure ByteArray} {name : String}
    {failure : ReadFailure} (hread : read name = .error failure) :
    (Request.ofArguments [name]).run read = ⟨[], .unreadable name failure⟩ := by
  show (Request.file name).run read = _
  simp only [Request.run, hread]
  rfl

/-- A reported character in the reach of padding can be pointed at. -/
theorem exists_caretLine (name : String) {source : String} {report : Illegal}
    (hreport : .illegal report ∈ itemsFrom .start source.toList)
    (hcolumn : ∀ column, Diagnostic.caretColumn (Line.locate source report.position.offset)
      = .ok column → column ≤ Diagnostic.widestColumn) :
    ∃ caret, (Diagnostic.ofIllegal name source report).caretLine = .ok caret := by
  obtain ⟨indent, before, hshows⟩ := exists_shows hreport
  have hplace := hshows.pointsAt.caretColumn_eq
  obtain ⟨caret, hcaret, -⟩ :=
    Diagnostic.exists_linesUp name rfl hplace (hcolumn _ hplace)
  exact ⟨caret, hcaret⟩

/-- **Output**: a file whose bytes are a source is scanned to its end, if lines, errors and
    columns stay within bounds. Cut at its line feeds, what is printed falls into the lines that
    stand for the items, one for a token and five for an illegal character, and one last line
    with the number of errors. A file whose bytes are no source is refused, and nothing is
    printed. -/
theorem output_keeps_to_items (read : String → Except ReadFailure ByteArray) (name : String)
    (hname : '\n' ∉ name.toList) (bytes : ByteArray) (hread : read name = .ok bytes)
    (nanoseconds : Nat) (report : Report)
    (hreport : ((Request.ofArguments [name]).run read).report (elapsedText nanoseconds)
      = report) :
    (∀ source : String, source.toByteArray = bytes → source.toList.count '\n' ≤ 4294967294 →
      ∃ drained tokens reports, (Lexer.ofSource source).drain = .ok drained ∧
        tokenize source = .ok (tokens, reports) ∧
        (reports.length < 2147483648 →
          (∀ illegal ∈ reports, ∀ column,
            Diagnostic.caretColumn (Line.locate source illegal.position.offset) = .ok column →
              column ≤ 65535) →
          report.code = 0 ∧
          ∃ blocks, List.Forall₂ (Prints name source) drained.items blocks ∧
            report.stdout.toList.splitOn '\n'
              = (blocks.flatten ++ ["Tokenized in " ++ elapsedText nanoseconds ++ " ("
                  ++ toString reports.length ++ " errors)"]).map String.toList ++ [[]])) ∧
    ((∀ source : String, source.toByteArray ≠ bytes) → report.code = 1 ∧ report.stdout = "") := by
  constructor
  · rintro source rfl hlines
    obtain ⟨drained, hdrain, hitems⟩ := Lexer.exists_drain_ofSource hlines
    refine ⟨drained, _, _, hdrain, tokenize_eq hdrain, ?_⟩
    intro hfew hcolumns
    rw [hitems] at hfew hcolumns ⊢
    -- The bounds are what the run needs from its start on.
    have hprintable : Printable name source (.ofSource source) 0 := by
      refine ⟨rfl, Position.hasRoom_start hlines, ?_, ?_⟩
      · intro report hreport
        exact exists_caretLine name hreport
          (hcolumns report (List.mem_filterMap.mpr ⟨_, hreport, rfl⟩))
      · rw [Nat.zero_add]
        exact Nat.le_of_lt_succ hfew
    obtain ⟨blocks, hblocks, hprinted⟩ := hprintable.exists_transcribe []
    have hscan : scanSource name source = ⟨blocks.flatten, .scanned
        ((itemsFrom .start source.toList).filterMap Item.illegal?).length⟩ := by
      unfold scanSource
      rw [hprinted, Nat.zero_add]
      rfl
    rw [run_of_read hread, decode_toByteArray] at hreport
    simp only [hscan] at hreport
    subst hreport
    refine ⟨rfl, blocks, hblocks, splitOn_unlines ?_⟩
    intro line hline
    rcases List.mem_append.mp hline with hline | hline
    · exact oneLine_of_mem_flatten hblocks hname hline
    · obtain rfl := List.mem_singleton.mp hline
      exact oneLine_closing nanoseconds _
  · intro hnone
    rw [run_of_read hread, decode_of_forall_ne hnone] at hreport
    subst hreport
    exact ⟨rfl, rfl⟩

/-- A comment and, on the next line, a stray `!`: one line, five lines and the last one,
    behind which nothing is left. -/
theorem output_keeps_to_items_seven_lines :
    '\n' ∉ "sums.txt".toList ∧
    ∃ (read : String → Except ReadFailure ByteArray) (report : Report),
      read "sums.txt" = .ok (String.ofList ['#', 'a', '\n', '!']).toByteArray ∧
      ((Request.ofArguments ["sums.txt"]).run read).report (elapsedText 1500) = report ∧
      report.code = 0 ∧
      (report.stdout.toList.splitOn '\n').length = 8 := by
  have hname : '\n' ∉ "sums.txt".toList := by decide
  have hlines : (String.ofList ['#', 'a', '\n', '!']).toList.count '\n' ≤ 4294967294 := by
    rw [String.toList_ofList]
    decide
  have hitems : itemsFrom .start ['#', 'a', '\n', '!']
      = [.token ⟨.comment, .text (String.ofList ['#', 'a']), 1, 0, 2⟩, .illegal ⟨'!', 2, 3⟩] := by
    have hmark : Piece.first? ['#', 'a', '\n', '!']
        = some ⟨.token .comment, ['#', 'a'], ['\n', '!']⟩ := rfl
    have hfeed : Piece.first? ['\n', '!'] = some ⟨.lineBreaks, ['\n'], ['!']⟩ := rfl
    have hstray : Piece.first? ['!'] = some ⟨.illegal '!', ['!'], []⟩ := rfl
    rw [itemsFrom_of_first? hmark, itemsFrom_of_first? hfeed, itemsFrom_of_first? hstray,
      itemsFrom_nil]
    rfl
  have hline : Line.locate (String.ofList ['#', 'a', '\n', '!']) 3 = ⟨2, ['!'], 0⟩ := by
    have hfirst : '\n' ∉ ['#', 'a'] := by decide
    have hsecond : '\n' ∉ ['!'] := by decide
    rw [Line.locate, String.toList_ofList]
    show Line.locateFrom 1 (['#', 'a'] ++ '\n' :: ['!']) 3 = _
    rw [Line.locateFrom_line hfirst, Line.locateFrom_single hsecond]
    rfl
  obtain ⟨read, hread⟩ : ∃ read : String → Except ReadFailure ByteArray,
      read "sums.txt" = .ok (String.ofList ['#', 'a', '\n', '!']).toByteArray :=
    ⟨fun _ => .ok (String.ofList ['#', 'a', '\n', '!']).toByteArray, rfl⟩
  obtain ⟨report, hreport⟩ : ∃ report, ((Request.ofArguments ["sums.txt"]).run read).report
      (elapsedText 1500) = report := ⟨_, rfl⟩
  obtain ⟨hsource, -⟩ :=
    output_keeps_to_items read "sums.txt" hname _ hread 1500 report hreport
  obtain ⟨drained, tokens, reports, hdrain, htokenize, hprints⟩ := hsource _ rfl hlines
  have hgiven := Lexer.items_eq_of_drain hdrain
  have hreports := (eq_of_tokenize htokenize).2
  rw [String.toList_ofList, hitems] at hgiven hreports
  subst hreports
  have hcolumns : ∀ illegal ∈ [(⟨'!', 2, 3⟩ : Illegal)], ∀ column,
      Diagnostic.caretColumn (Line.locate (String.ofList ['#', 'a', '\n', '!'])
        illegal.position.offset) = .ok column → column ≤ 65535 := by
    intro illegal hillegal column hcolumn
    obtain rfl := List.mem_singleton.mp hillegal
    rw [hline] at hcolumn
    obtain rfl := Except.ok.inj hcolumn
    decide
  obtain ⟨hcode, blocks, hblocks, hcut⟩ := hprints (by decide) hcolumns
  refine ⟨hname, read, report, hread, hreport, hcode, ?_⟩
  rw [hgiven] at hblocks
  rw [hcut, List.length_append, List.length_map, List.length_append]
  cases hblocks with
  | cons hfirst hblocks =>
    cases hfirst
    cases hblocks with
    | cons hsecond hblocks =>
      cases hsecond
      cases hblocks
      rfl

end ExprScan
