import ExprScan.Proofs.Seams

/-! # Words written on lines of their own

  Words that are written one below the other are read back as they are: each
  is scanned whole, as a token of the one kind whose language it is in, and on
  its line. A word by itself is a single piece (`itemsFrom_word`), and a line
  feed behind it is a seam, so the rest follows line by line
  (`exists_tokens_intercalate`).

  The lexemes of tokens are such words, whatever source the tokens are from
  (`exists_words`). So the tokens of a source can be written down and scanned
  again.
-/

namespace ExprScan

/-! ### One word -/

/-- The token that a word of a kind is where it stands at a cursor. -/
def Kind.tokenAt (kind : Kind) (pos : Position) (word : List Char) : Token :=
  ⟨kind, kind.valueOf word, pos.line, ⟨pos.offset, pos.offset + Text.byteLength word⟩⟩

theorem Kind.spells_unique {first second : Kind} {word : List Char} (h₁ : first.Spells word)
    (h₂ : second.Spells word) : first = second := by
  have hsame : Category.token first = .token second := Category.spells_unique h₁ h₂
  exact Category.token.inj hsame

theorem Kind.Spells.lineFeed_notMem {kind : Kind} {word : List Char} (h : kind.Spells word) :
    '\n' ∉ word := by
  have hlabels : Category.Labels (.token kind) word := Or.inl h
  exact hlabels.lineFeed_notMem (by simp)

/-- A word by itself is one token. -/
theorem itemsFrom_word {kind : Kind} {word : List Char} (h : kind.Spells word) (pos : Position) :
    itemsFrom pos word = [.token (kind.tokenAt pos word)] := by
  have hlabels : Category.Labels (.token kind) word := Or.inl h
  have hsettled : Settled word [] := by
    intro c hc
    simp at hc
  have hitems : itemsFrom pos (word ++ []) = .token (kind.tokenAt pos word) :: itemsFrom _ [] :=
    itemsFrom_append hlabels hsettled
  rwa [List.append_nil, itemsFrom_nil] at hitems

/-- A token of a source reads a word: the word is its lexeme, its kind is the
    one whose language the word is in, and its value is what this kind takes
    from the word. -/
structure Token.Reads (source : String) (token : Token) (word : String) : Prop where
  spells : token.kind.Spells word.toList
  kind_unique : ∀ kind : Kind, kind.Spells word.toList → kind = token.kind
  value_eq : token.value = token.kind.valueOf word.toList
  lexeme_eq : token.lexeme source = .ok word

/-- A token where its word stands in a source reads the word. -/
theorem Kind.Spells.reads_tokenAt {kind : Kind} {source : String} {before word behind : List Char}
    {pos : Position} (h : kind.Spells word) (hsource : source.toList = before ++ (word ++ behind))
    (hoffset : pos.offset = Text.byteLength before) :
    (kind.tokenAt pos word).Reads source (String.ofList word) := by
  have hlabels : Category.Labels (.token kind) word := Or.inl h
  have hcovers : Crossing.Covers source (Passage.crossing ⟨pos, .token kind, word⟩) :=
    Passage.covers hsource hoffset hlabels
  have htext : (String.ofList word).toList = word := String.toList_ofList
  refine ⟨?_, ?_, ?_, hcovers.2⟩
  · rw [htext]
    exact h
  · intro other hother
    rw [htext] at hother
    exact Kind.spells_unique hother h
  · rw [htext]
    rfl

/-- What a token is, wherever it stands, follows from the word that it reads. -/
theorem Token.Reads.same {first second : String} {token other : Token} {word : String}
    (h₁ : token.Reads first word) (h₂ : other.Reads second word) :
    (token.kind, token.value) = (other.kind, other.value) := by
  have hkind : token.kind = other.kind := h₂.kind_unique _ h₁.spells
  rw [h₁.value_eq, h₂.value_eq, hkind]

/-! ### Words one below the other -/

/-- Words one below the other have fewer line feeds than there are words. -/
theorem count_intercalate_le {words : List String}
    (hwords : ∀ word ∈ words, ∃ kind : Kind, kind.Spells word.toList) :
    ("\n".intercalate words).toList.count '\n' ≤ words.length := by
  induction words with
  | nil => simp
  | cons word more ih =>
    obtain ⟨kind, hspells⟩ := hwords word List.mem_cons_self
    have hnone := List.count_eq_zero_of_not_mem hspells.lineFeed_notMem
    cases more with
    | nil =>
      rw [String.intercalate_singleton, hnone]
      exact Nat.zero_le _
    | cons next more =>
      have hmore := ih fun other hother => hwords other (List.mem_cons_of_mem word hother)
      rw [String.intercalate_cons_cons, count_seam, hnone, List.length_cons]
      omega

/-- Words one below the other give one token each, on one line each. -/
theorem exists_tokens_intercalate {source : String} {words : List String} {before : List Char}
    (hroom : Position.start.HasRoom source.toList)
    (hwords : ∀ word ∈ words, ∃ kind : Kind, kind.Spells word.toList)
    (hsource : source.toList = before ++ ("\n".intercalate words).toList) :
    ∃ tokens, itemsFrom (Position.start.after before) ("\n".intercalate words).toList
        = tokens.map Item.token ∧
      List.Forall₂ (fun entry token => Token.Reads source token entry.1 ∧
        token.line.toNat = entry.2) (words.zipIdx (1 + before.count '\n')) tokens := by
  induction words generalizing before with
  | nil => exact ⟨[], by simp, .nil⟩
  | cons word more ih =>
    obtain ⟨kind, hspells⟩ := hwords word List.mem_cons_self
    have hreads : ∀ behind, source.toList = before ++ (word.toList ++ behind) →
        (kind.tokenAt (Position.start.after before) word.toList).Reads source word ∧
          (kind.tokenAt (Position.start.after before) word.toList).line.toNat
            = 1 + before.count '\n' := by
      intro behind hword
      have hread := hspells.reads_tokenAt hword Position.offset_after_start
      rw [String.ofList_toList] at hread
      rw [hword] at hroom
      exact ⟨hread, Position.toNat_line_after hroom.left⟩
    cases more with
    | nil =>
      rw [String.intercalate_singleton] at hsource ⊢
      rw [← List.append_nil word.toList] at hsource
      exact ⟨_, itemsFrom_word hspells _, .cons (hreads [] hsource) .nil⟩
    | cons next more =>
      rw [String.intercalate_cons_cons, toList_seam] at hsource ⊢
      have hbehind : source.toList
          = (before ++ (word.toList ++ ['\n'])) ++ ("\n".intercalate (next :: more)).toList := by
        rw [hsource]
        simp
      -- The next word stands one line further down.
      have hline : 1 + (before ++ (word.toList ++ ['\n'])).count '\n'
          = 1 + before.count '\n' + 1 := by
        rw [List.count_append, List.count_append,
          List.count_eq_zero_of_not_mem hspells.lineFeed_notMem]
        rfl
      obtain ⟨tokens, hitems, hmore⟩ :=
        ih (fun other hother => hwords other (List.mem_cons_of_mem word hother)) hbehind
      rw [hline] at hmore
      refine ⟨kind.tokenAt (Position.start.after before) word.toList :: tokens, ?_,
        .cons (hreads _ hsource) hmore⟩
      rw [itemsFrom_seam, itemsFrom_word hspells, ← Position.after_append, hitems]
      rfl

/-- Words one below the other are read back, and nothing is reported. -/
theorem exists_tokenize_intercalate {words : List String} (hlength : words.length < 4294967295)
    (hwords : ∀ word ∈ words, ∃ kind : Kind, kind.Spells word.toList) :
    ∃ tokens, tokenize ("\n".intercalate words) = .ok (tokens, []) ∧
      List.Forall₂ (fun entry token => Token.Reads ("\n".intercalate words) token entry.1 ∧
        token.line.toNat = entry.2) (words.zipIdx 1) tokens := by
  have hcount := count_intercalate_le hwords
  have hlines : ("\n".intercalate words).toList.count '\n' ≤ 4294967294 := by omega
  obtain ⟨drained, hdrain, hitems⟩ := Lexer.exists_drain_ofSource hlines
  obtain ⟨tokens, htokens, hreads⟩ := exists_tokens_intercalate (Position.hasRoom_start hlines)
    hwords (List.nil_append _).symm
  rw [Position.after_nil] at htokens
  refine ⟨tokens, ?_, hreads⟩
  rw [tokenize_eq hdrain, hitems, htokens]
  simp [List.filterMap_map, Function.comp_def, Item.token?, Item.illegal?]

/-! ### The tokens of a source -/

theorem Item.mem_of_mem_filterMap_token? {items : List Item} {token : Token}
    (h : token ∈ items.filterMap Item.token?) : .token token ∈ items := by
  obtain ⟨item, hitem, htoken⟩ := List.mem_filterMap.mp h
  cases item with
  | token other =>
    obtain rfl := Option.some.inj htoken
    exact hitem
  | illegal report => simp [Item.token?] at htoken

/-- Each token of a source reads a word. -/
theorem exists_reads {source : String} {token : Token}
    (h : .token token ∈ itemsFrom .start source.toList) : ∃ word, token.Reads source word := by
  obtain ⟨category, before, word, behind, hsource, hlabels, hitem⟩ := exists_of_mem_itemsFrom h
  match category, hlabels, hitem with
  | .token kind, hlabels, hitem =>
    have hspells : kind.Spells word := hlabels.spells (by simp)
    obtain rfl : kind.tokenAt (Position.start.after before) word = token :=
      Item.token.inj (Option.some.inj hitem)
    exact ⟨_, hspells.reads_tokenAt hsource Position.offset_after_start⟩

/-- The tokens of a source read words of their kinds. -/
theorem exists_words {source : String} {tokens : List Token}
    (h : ∀ token ∈ tokens, .token token ∈ itemsFrom .start source.toList) :
    ∃ words, List.Forall₂ (Token.Reads source) tokens words ∧
      ∀ word ∈ words, ∃ kind : Kind, kind.Spells word.toList := by
  induction tokens with
  | nil => exact ⟨[], .nil, by simp⟩
  | cons token tokens ih =>
    obtain ⟨word, hword⟩ := exists_reads (h token List.mem_cons_self)
    obtain ⟨words, hwords, hspelled⟩ :=
      ih fun other hother => h other (List.mem_cons_of_mem token hother)
    refine ⟨word :: words, .cons hword hwords, ?_⟩
    intro other hother
    rcases List.mem_cons.mp hother with rfl | hother
    · exact ⟨token.kind, hword.spells⟩
    · exact hspelled other hother

/-- Tokens that read the same words, one after the other, are the same but for their places. -/
theorem map_eq_of_reads {first second : String} {tokens others : List Token} {words : List String}
    (line : Nat) (h₁ : List.Forall₂ (Token.Reads first) tokens words)
    (h₂ : List.Forall₂ (fun entry token => Token.Reads second token entry.1 ∧
      token.line.toNat = entry.2) (words.zipIdx line) others) :
    others.map (fun token => (token.kind, token.value))
      = tokens.map fun token => (token.kind, token.value) := by
  induction h₁ generalizing line others with
  | nil =>
    cases h₂
    rfl
  | cons hword hwords ih =>
    cases h₂ with
    | cons hother hothers => rw [List.map_cons, List.map_cons, ih _ hothers, hother.1.same hword]

/-- **Round trip**: words that are written one below the other are read back
    without an error, one token for each word, on the line that the word is on.
    Hence the lexemes of the tokens of any source, written one below the
    other, are read back as tokens of the same kinds with the same values. -/
theorem words_read_back :
    (∀ words : List String, words.length < 4294967295 →
      (∀ word ∈ words, ∃ kind : Kind, kind.Spells word.toList) →
      ∃ tokens, tokenize ("\n".intercalate words) = .ok (tokens, []) ∧
        List.Forall₂ (fun entry token => Token.Reads ("\n".intercalate words) token entry.1 ∧
          token.line.toNat = entry.2) (words.zipIdx 1) tokens) ∧
    ∀ source tokens reports, tokenize source = .ok (tokens, reports) →
      ∃ words, List.Forall₂ (fun token word => token.lexeme source = .ok word) tokens words ∧
        (words.length < 4294967295 →
          ∃ again, tokenize ("\n".intercalate words) = .ok (again, []) ∧
            again.map (fun token => (token.kind, token.value))
              = tokens.map fun token => (token.kind, token.value)) := by
  constructor
  · intro words hlength hwords
    exact exists_tokenize_intercalate hlength hwords
  · intro source tokens reports htokenize
    obtain ⟨rfl, -⟩ := eq_of_tokenize htokenize
    obtain ⟨words, hreads, hspelled⟩ := exists_words fun token htoken =>
      Item.mem_of_mem_filterMap_token? htoken
    refine ⟨words, hreads.imp fun token word hword => hword.lexeme_eq, ?_⟩
    intro hlength
    obtain ⟨again, hagain, hread⟩ := exists_tokenize_intercalate hlength hspelled
    exact ⟨again, hagain, map_eq_of_reads 1 hreads hread⟩

/-- The words `<` and `12.` are read back, and so are the tokens of `<12.!`. -/
theorem words_read_back_float :
    [String.ofList ['<'], String.ofList ['1', '2', '.']].length < 4294967295 ∧
    (∀ word ∈ [String.ofList ['<'], String.ofList ['1', '2', '.']],
      ∃ kind : Kind, kind.Spells word.toList) ∧
    (∃ tokens, tokenize
      ("\n".intercalate [String.ofList ['<'], String.ofList ['1', '2', '.']]) = .ok (tokens, [])) ∧
    ∃ tokens reports words again,
      tokenize (String.ofList ['<', '1', '2', '.', '!']) = .ok (tokens, reports) ∧
      words.length = 2 ∧ tokenize ("\n".intercalate words) = .ok (again, []) ∧
      again.map (fun token => (token.kind, token.value))
        = tokens.map fun token => (token.kind, token.value) := by
  obtain ⟨hwords, hsources⟩ := words_read_back
  have hfew : [String.ofList ['<'], String.ofList ['1', '2', '.']].length < 4294967295 := by
    decide
  have hspelled : ∀ word ∈ [String.ofList ['<'], String.ofList ['1', '2', '.']],
      ∃ kind : Kind, kind.Spells word.toList := by
    intro word hword
    rcases List.mem_cons.mp hword with rfl | hword
    · exact ⟨.symbol .lessThan, String.toList_ofList⟩
    · rw [List.mem_singleton.mp hword, String.toList_ofList]
      exact ⟨.float, ['1', '2'], [], rfl, by simp [AllDigits], by simp [AllDigits], by simp⟩
  have hlines : (String.ofList ['<', '1', '2', '.', '!']).toList.count '\n' ≤ 4294967294 := by
    rw [String.toList_ofList]
    decide
  have hcount : ((itemsFrom .start ['<', '1', '2', '.', '!']).filterMap Item.token?).length = 2 := by
    have hless : Piece.first? ['<', '1', '2', '.', '!']
        = some ⟨.token (.symbol .lessThan), ['<'], ['1', '2', '.', '!']⟩ := rfl
    have hfloat : Piece.first? ['1', '2', '.', '!']
        = some ⟨.token .float, ['1', '2', '.'], ['!']⟩ := rfl
    have hstray : Piece.first? ['!'] = some ⟨.illegal '!', ['!'], []⟩ := rfl
    rw [itemsFrom_of_first? hless, itemsFrom_of_first? hfloat, itemsFrom_of_first? hstray,
      itemsFrom_nil]
    rfl
  obtain ⟨tokens, hread, -⟩ := hwords _ hfew hspelled
  obtain ⟨drained, hdrain, hitems⟩ := Lexer.exists_drain_ofSource hlines
  have htokenize := tokenize_eq hdrain
  obtain ⟨words, hlexemes, hagain⟩ := hsources _ _ _ htokenize
  have hlength : words.length = 2 := by
    rw [← hlexemes.length_eq, hitems, String.toList_ofList, hcount]
  obtain ⟨again, hsecond, hsame⟩ := hagain (by omega)
  exact ⟨hfew, hspelled, ⟨tokens, hread⟩, _, _, words, again, htokenize, hlength, hsecond, hsame⟩

end ExprScan
