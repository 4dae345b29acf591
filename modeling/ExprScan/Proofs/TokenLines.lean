import ExprScan.Proofs.Integers
import Mathlib.Data.List.Nodup

/-! # Token lines told apart

  Each token is shown on a line: its kind, its value if it has one, and its
  line number. From such a line the token can be told, but for where it starts.
  The name of the kind ends at the first character that is no letter, a whole
  number at the first that is no digit, and a comment at the first quote that
  is not escaped.

  A comment may hold anything, also a quote, a bracket and the words that close
  a token line. What makes it readable is that no character is written as the
  beginning of another one (`Written.unique`), whichever characters are written
  by their code points, and that none is written as a quote alone. So the text
  can be read off from the left (`flatMap_append_injective`).
-/

namespace ExprScan

/-! ### Cutting at the first character of another class -/

/-- Two texts that go on alike up to a character of another class have it in the same place. -/
theorem append_cons_injective {p : Char → Bool} {first second behind rest : List Char}
    {c d : Char} (hfirst : ∀ a ∈ first, p a = true) (hsecond : ∀ a ∈ second, p a = true)
    (hc : p c = false) (hd : p d = false) (h : first ++ c :: behind = second ++ d :: rest) :
    first = second ∧ c :: behind = d :: rest := by
  have htake := congrArg (List.takeWhile p) h
  rw [List.takeWhile_append_of_pos hfirst, List.takeWhile_append_of_pos hsecond,
    List.takeWhile_cons_of_neg (Bool.eq_false_iff.mp hc),
    List.takeWhile_cons_of_neg (Bool.eq_false_iff.mp hd), List.append_nil,
    List.append_nil] at htake
  subst htake
  exact ⟨rfl, List.append_cancel_left h⟩

/-! ### Numbers written in digits -/

theorem digitChar_injective {m n : Nat} (hm : m < 16) (hn : n < 16)
    (h : m.digitChar = n.digitChar) : m = n := by
  have hall : ∀ m < 16, ∀ n < 16, m.digitChar = n.digitChar → m = n := by decide
  exact hall m hm n hn h

/-- Up to base sixteen, a number is told by its digits. -/
theorem toDigits_injective {base : Nat} (hone : 1 < base) (hsixteen : base ≤ 16) {m n : Nat}
    (h : Nat.toDigits base m = Nat.toDigits base n) : m = n := by
  -- By the number: the last digit is its rest, and the others are those of its quotient.
  induction m using Nat.strongRecOn generalizing n with
  | _ m ih =>
    rw [Nat.toDigits_eq_if hone, Nat.toDigits_eq_if hone (n := n)] at h
    by_cases hm : m < base
    · by_cases hn : n < base
      · rw [if_pos hm, if_pos hn] at h
        exact digitChar_injective (by omega) (by omega) (List.singleton_inj.mp h)
      · rw [if_pos hm, if_neg hn] at h
        have hlength := congrArg List.length h
        have hmore := List.length_pos_iff.mpr (Nat.toDigits_ne_nil (n := n / base) (b := base))
        simp only [List.length_singleton, List.length_append] at hlength
        omega
    · by_cases hn : n < base
      · rw [if_neg hm, if_pos hn] at h
        have hlength := congrArg List.length h
        have hmore := List.length_pos_iff.mpr (Nat.toDigits_ne_nil (n := m / base) (b := base))
        simp only [List.length_singleton, List.length_append] at hlength
        omega
      · rw [if_neg hm, if_neg hn] at h
        obtain ⟨hfront, hlast⟩ := List.append_inj' h rfl
        have hquotient : m / base = n / base := ih _ (Nat.div_lt_self (by omega) hone) hfront
        have hmrest := Nat.mod_lt m (by omega : 0 < base)
        have hnrest := Nat.mod_lt n (by omega : 0 < base)
        have hrest : m % base = n % base :=
          digitChar_injective (by omega) (by omega) (List.singleton_inj.mp hlast)
        rw [← Nat.div_add_mod m base, ← Nat.div_add_mod n base, hquotient, hrest]

theorem isDigit_of_mem_toDigits_ten {n : Nat} {c : Char} (h : c ∈ Nat.toDigits 10 n) :
    c.isDigit = true :=
  Nat.isDigit_of_mem_toDigits (by decide) (by decide) h

/-- A code point is written without a brace. -/
theorem brace_ne_of_mem_toDigits {n : Nat} {c : Char} (h : c ∈ Nat.toDigits 16 n) :
    (c != '\x7d') = true := by
  have hdigit : ∀ d, Nat.digitChar d ≠ '\x7d' := fun d => Nat.digitChar_ne '\x7d' rfl
  induction n using Nat.strongRecOn with
  | _ n ih =>
    rw [Nat.toDigits_eq_if (by decide)] at h
    split at h
    · rw [List.mem_singleton.mp h]
      simp [hdigit]
    · next hn =>
      rcases List.mem_append.mp h with h | h
      · exact ih (n / 16) (Nat.div_lt_self (by omega) (by decide)) h
      · rw [List.mem_singleton.mp h]
        simp [hdigit]

/-! ### Quoted texts -/

namespace Text

/-- A character as it is written between a given kind of quotes, if some set of characters is
    written by code points. -/
def escapeWith (concealed : Char → Bool) (quote : Char) (c : Char) : List Char :=
  match escapeLetter? c with
  | some letter => ['\x5c', letter]
  | none =>
    if c = quote then ['\x5c', c]
    else if concealed c then codePoint c
    else [c]

/-- A text between double quotes, if some set of characters is written by code points. -/
def quotedWith (concealed : Char → Bool) (text : String) : String :=
  String.ofList ('\x22' :: text.toList.flatMap (escapeWith concealed '\x22') ++ ['\x22'])

/-- The character that is written between double quotes by a backslash and one more
    character. -/
def escapedBy? (letter : Char) : Option Char :=
  if letter = '0' then some '\x00'
  else if letter = 't' then some '\t'
  else if letter = 'r' then some '\r'
  else if letter = 'n' then some '\n'
  else if letter = '\x5c' then some '\x5c'
  else if letter = '\x22' then some '\x22'
  else none

theorem escapedBy?_of_escapeLetter? {c letter : Char} (h : escapeLetter? c = some letter) :
    escapedBy? letter = some c := by
  unfold escapeLetter? at h
  split_ifs at h with h₁ h₂ h₃ h₄ h₅
  all_goals
    obtain rfl := Option.some.inj h
    subst c
    rfl

/-- What a character is written as between double quotes: itself, a backslash and one more
    character, or its code point. -/
inductive Written : Char → List Char → Prop where
  | plain {c : Char} (hmark : c ≠ '\x5c') (hquote : c ≠ '\x22') : Written c [c]
  | marked {c letter : Char} (hletter : escapedBy? letter = some c) : Written c ['\x5c', letter]
  | point (c : Char) : Written c (codePoint c)

theorem written_escapeWith (concealed : Char → Bool) (c : Char) :
    Written c (escapeWith concealed '\x22' c) := by
  unfold escapeWith
  split
  · next letter hletter => exact .marked (escapedBy?_of_escapeLetter? hletter)
  · next hnone =>
    have hmark : c ≠ '\x5c' := by
      rintro rfl
      exact absurd hnone (by decide)
    split
    · next hquote =>
      subst hquote
      exact .marked rfl
    · next hquote =>
      split
      · exact .point c
      · exact .plain hmark hquote

/-- A code point is told by its digits, and what stands behind it is told apart from it. -/
theorem codePoint_append_injective {c d : Char} {first second : List Char}
    (h : codePoint c ++ first = codePoint d ++ second) : c = d ∧ first = second := by
  have hbrace : ('\x7d' != '\x7d') = false := by decide
  simp only [codePoint, List.append_assoc, List.cons_append, List.nil_append,
    List.cons.injEq, true_and] at h
  obtain ⟨hdigits, hrest⟩ := append_cons_injective (fun _ => brace_ne_of_mem_toDigits)
    (fun _ => brace_ne_of_mem_toDigits) hbrace hbrace h
  have hpoint : c.toNat = d.toNat := toDigits_injective (by decide) (by decide) hdigits
  exact ⟨Char.toNat_inj.mp hpoint, (List.cons.inj hrest).2⟩

/-- No character is written as the beginning of another one. -/
theorem Written.unique {c d : Char} {one other first second : List Char} (hone : Written c one)
    (hother : Written d other) (h : one ++ first = other ++ second) :
    c = d ∧ first = second := by
  -- The backslash tells what is escaped, and the character behind it how.
  have hpoint : escapedBy? 'u' = none := by decide
  cases hone with
  | plain hmark hquote =>
    cases hother with
    | plain => exact List.cons.inj h
    | marked => exact absurd (List.cons.inj h).1 hmark
    | point => exact absurd (List.cons.inj h).1 hmark
  | marked hletter =>
    cases hother with
    | plain hmark => exact absurd (List.cons.inj h).1.symm hmark
    | marked hsecond =>
      obtain ⟨rfl, hrest⟩ := List.cons.inj (List.cons.inj h).2
      exact ⟨Option.some.inj (hletter.symm.trans hsecond), hrest⟩
    | point =>
      obtain ⟨rfl, -⟩ := List.cons.inj (List.cons.inj h).2
      exact nomatch hpoint.symm.trans hletter
  | point =>
    cases hother with
    | plain hmark => exact absurd (List.cons.inj h).1.symm hmark
    | marked hsecond =>
      obtain ⟨rfl, -⟩ := List.cons.inj (List.cons.inj h).2
      exact nomatch hpoint.symm.trans hsecond
    | point => exact codePoint_append_injective h

/-- No character is written as a quote. -/
theorem Written.ne_quote {c : Char} {one first rest : List Char} (h : Written c one) :
    one ++ first ≠ '\x22' :: rest := by
  intro hquote
  cases h with
  | plain hmark hne => exact hne (List.cons.inj hquote).1
  | marked => exact absurd (List.cons.inj hquote).1 (by decide)
  | point => exact absurd (List.cons.inj hquote).1 (by decide)

/-- A text is read off from the left up to the quote that closes it, whatever stands behind. -/
theorem flatMap_append_injective {concealed : Char → Bool} {text other first second : List Char}
    (h : text.flatMap (escapeWith concealed '\x22') ++ '\x22' :: first
      = other.flatMap (escapeWith concealed '\x22') ++ '\x22' :: second) :
    text = other ∧ first = second := by
  induction text generalizing other with
  | nil =>
    cases other with
    | nil => exact ⟨rfl, (List.cons.inj h).2⟩
    | cons d other =>
      rw [List.flatMap_cons, List.append_assoc] at h
      exact absurd h.symm (written_escapeWith concealed d).ne_quote
  | cons c text ih =>
    rw [List.flatMap_cons, List.append_assoc] at h
    cases other with
    | nil => exact absurd h (written_escapeWith concealed c).ne_quote
    | cons d other =>
      rw [List.flatMap_cons, List.append_assoc] at h
      obtain ⟨rfl, hmore⟩ :=
        (written_escapeWith concealed c).unique (written_escapeWith concealed d) h
      obtain ⟨rfl, hrest⟩ := ih hmore
      exact ⟨rfl, hrest⟩

end Text

/-! ### Kinds and line numbers -/

theorem Kind.name_injective {first second : Kind} (h : first.name = second.name) :
    first = second := by
  have hnodup : (Kind.all.map Kind.name).Nodup := by decide +kernel
  exact List.inj_on_of_nodup_map hnodup first.mem_all second.mem_all h

/-- A kind is found by its name. -/
theorem Kind.ofName?_name (kind : Kind) : ofName? kind.name = some kind := by
  unfold ofName?
  cases hfound : all.find? fun other => other.name == kind.name with
  | none =>
    have hnot := List.find?_eq_none.mp hfound kind kind.mem_all
    exact absurd (beq_self_eq_true _) hnot
  | some other =>
    have hname := List.find?_some hfound
    rw [beq_iff_eq] at hname
    rw [Kind.name_injective hname]

theorem Kind.isAlpha_of_mem_name {kind : Kind} {c : Char} (h : c ∈ kind.name.toList) :
    c.isAlpha = true := by
  have hall : ∀ kind ∈ Kind.all, kind.name.toList.all Char.isAlpha = true := by decide +kernel
  exact List.all_eq_true.mp (hall kind kind.mem_all) c h

/-- How a line number is shown at the end of a token line, but for the blank before it. -/
def lineText (line : UInt32) : List Char :=
  "(line ".toList ++ (Nat.toDigits 10 line.toNat ++ [')'])

theorem lineText_injective {line other : UInt32} (h : lineText line = lineText other) :
    line = other := by
  have hdigits := List.append_cancel_right (List.append_cancel_left h)
  exact UInt32.toNat_inj.mp (toDigits_injective (by decide) (by decide) hdigits)

/-! ### Token lines -/

/-- A value as text, if some set of characters is written by code points. -/
def Value.displayWith (concealed : Char → Bool) : Value → String
  | .text s => Text.quotedWith concealed s
  | value => value.display

namespace Token

/-- A token on a line of its own, if some set of characters is written by code points. -/
def displayWith (concealed : Char → Bool) (token : Token) : String :=
  let meaning := match token.value with
    | .absent => token.kind.name
    | value => Text.wrapped token.kind.name (value.displayWith concealed)
  meaning ++ " (line " ++ toString token.line.toNat ++ ")"

theorem displayWith_isConcealed (token : Token) :
    token.displayWith Text.isConcealed = token.display := by
  obtain ⟨kind, value, line, span⟩ := token
  cases value <;> rfl

/-- What is shown of a token behind the name of its kind. -/
inductive Tail (concealed : Char → Bool) : Token → List Char → Prop where
  | symbol (s : Symbol) (line : UInt32) (span : Span) :
      Tail concealed ⟨.symbol s, .absent, line, span⟩ (' ' :: lineText line)
  | integer {value : Value} {n : Nat} (hholds : value.Holds n) (line : UInt32) (span : Span) :
      Tail concealed ⟨.integer, value, line, span⟩
        ('(' :: (Nat.toDigits 10 n ++ ')' :: ' ' :: lineText line))
  | comment (text : String) (line : UInt32) (span : Span) :
      Tail concealed ⟨.comment, .text text, line, span⟩
        ('(' :: '\x22' :: (text.toList.flatMap (Text.escapeWith concealed '\x22')
          ++ '\x22' :: ')' :: ' ' :: lineText line))

variable {concealed : Char → Bool} {token other : Token} {tail behind : List Char}

/-- The value of a whole number is not left out. -/
theorem displayWith_of_holds {value : Value} {n : Nat} (h : value.Holds n) (line : UInt32)
    (span : Span) : displayWith concealed ⟨.integer, value, line, span⟩
      = Text.wrapped "Integer" (String.ofList (Nat.toDigits 10 n)) ++ " (line "
        ++ toString line.toNat ++ ")" := by
  rw [← h.display_eq]
  match value, h with
  | .integer x, h => rfl
  | .bigInteger x, h => rfl

theorem Tail.toList_displayWith (h : Tail concealed token tail) :
    (token.displayWith concealed).toList = token.kind.name.toList ++ tail := by
  cases h with
  | symbol s line span =>
    show (s.name ++ " (line " ++ toString line.toNat ++ ")").toList = s.name.toList ++ _
    simp only [String.toList_append, List.append_assoc, Nat.toString_eq_ofList_toDigits,
      String.toList_ofList]
    rfl
  | integer hholds line span =>
    rw [displayWith_of_holds hholds]
    simp only [Text.wrapped, String.toList_append, List.append_assoc,
      Nat.toString_eq_ofList_toDigits, String.toList_ofList]
    rfl
  | comment text line span =>
    show ("Comment" ++ "(" ++ Text.quotedWith concealed text ++ ")" ++ " (line "
      ++ toString line.toNat ++ ")").toList = "Comment".toList ++ _
    simp only [Text.quotedWith, String.toList_append, List.append_assoc,
      Nat.toString_eq_ofList_toDigits, String.toList_ofList, List.cons_append]
    rfl

/-- Behind the name of the kind stands a character that is no letter. -/
theorem Tail.exists_cons (h : Tail concealed token tail) :
    ∃ c rest, tail = c :: rest ∧ c.isAlpha = false := by
  cases h with
  | symbol => exact ⟨' ', _, rfl, by decide⟩
  | integer => exact ⟨'(', _, rfl, by decide⟩
  | comment => exact ⟨'(', _, rfl, by decide⟩

/-- Of a known kind, the value and the line are told by what is shown behind the name. -/
theorem Tail.injective (h : Tail concealed token tail) (hother : Tail concealed other tail)
    (hkind : token.kind = other.kind) : token.value = other.value ∧ token.line = other.line := by
  cases h with
  | symbol s line span =>
    generalize htail : ' ' :: lineText line = shown at hother
    cases hother with
    | symbol => exact ⟨rfl, lineText_injective (List.cons.inj htail).2⟩
    | integer => exact nomatch hkind
    | comment => exact nomatch hkind
  | integer hholds line span =>
    generalize htail : '(' :: (_ ++ _) = shown at hother
    cases hother with
    | symbol => exact nomatch hkind
    | comment => exact nomatch hkind
    | integer hothers =>
      obtain ⟨hdigits, hline⟩ := append_cons_injective (fun _ => isDigit_of_mem_toDigits_ten)
        (fun _ => isDigit_of_mem_toDigits_ten) rfl rfl (List.cons.inj htail).2
      obtain rfl := toDigits_injective (by decide) (by decide) hdigits
      exact ⟨hholds.unique hothers,
        lineText_injective (List.cons.inj (List.cons.inj hline).2).2⟩
  | comment text line span =>
    generalize htail : '(' :: '\x22' :: (_ ++ _) = shown at hother
    cases hother with
    | symbol => exact nomatch hkind
    | integer => exact nomatch hkind
    | comment =>
      obtain ⟨htext, hline⟩ :=
        Text.flatMap_append_injective (List.cons.inj (List.cons.inj htail).2).2
      have hsame := String.toList_inj.mp htext
      exact ⟨by rw [hsame], lineText_injective (List.cons.inj (List.cons.inj hline).2).2⟩

/-- Each token that a word was scanned to is shown in one of three forms, unless it is a
    float. -/
theorem Reads.exists_tail {source word : String} (h : token.Reads source word)
    (hkind : token.kind ≠ .float) : ∃ tail, Tail concealed token tail := by
  obtain ⟨kind, value, line, span⟩ := token
  obtain rfl : value = kind.valueOf word.toList := h.value_eq
  cases kind with
  | symbol s => exact ⟨_, .symbol s line span⟩
  | integer =>
    have hspells : Kind.integer.Spells word.toList := h.spells
    exact ⟨_, .integer (Value.holds_read hspells.1 hspells.2) line span⟩
  | float => exact absurd rfl hkind
  | comment => exact ⟨_, .comment _ line span⟩

/-- Tokens shown alike are alike. -/
theorem Tail.same (h : Tail concealed token tail) (hother : Tail concealed other behind)
    (hshown : token.displayWith concealed = other.displayWith concealed) :
    token.kind = other.kind ∧ token.value = other.value ∧ token.line = other.line := by
  have htext := congrArg String.toList hshown
  rw [h.toList_displayWith, hother.toList_displayWith] at htext
  obtain ⟨c, rest, rfl, hc⟩ := h.exists_cons
  obtain ⟨d, more, rfl, hd⟩ := hother.exists_cons
  obtain ⟨hname, hrest⟩ := append_cons_injective (fun _ => Kind.isAlpha_of_mem_name)
    (fun _ => Kind.isAlpha_of_mem_name) hc hd htext
  have hkind := Kind.name_injective (String.toList_inj.mp hname)
  rw [← hrest] at hother
  exact ⟨hkind, h.injective hother hkind⟩

end Token

/-- **Token lines**: two tokens, each given by a scan of some source and neither a float, are of
    one kind, have one value and stand on one line if they are shown alike. This holds whichever
    characters quoted text writes by their code points, and token lines are those for the
    characters that could not be told apart on a screen. -/
theorem tokens_told_by_lines :
    (∀ (concealed : Char → Bool) (source other : String) (given stream : List Item)
      (lexer reached : Lexer), Lexer.Reaches (.ofSource source) given lexer →
      Lexer.Reaches (.ofSource other) stream reached →
      ∀ first second, .token first ∈ given → .token second ∈ stream →
        first.kind ≠ .float → second.kind ≠ .float →
        first.displayWith concealed = second.displayWith concealed →
        first.kind = second.kind ∧ first.value = second.value ∧ first.line = second.line) ∧
    ∀ token : Token, token.displayWith Text.isConcealed = token.display := by
  constructor
  · intro concealed source other given stream lexer reached hreaches hother first second hfirst
      hsecond hfirstKind hsecondKind hshown
    obtain ⟨word, hreads⟩ := exists_reads (hreaches.mem_itemsFrom hfirst)
    obtain ⟨another, hreadsOther⟩ := exists_reads (hother.mem_itemsFrom hsecond)
    obtain ⟨tail, htail⟩ : ∃ tail, Token.Tail concealed first tail :=
      hreads.exists_tail hfirstKind
    obtain ⟨behind, hbehind⟩ : ∃ tail, Token.Tail concealed second tail :=
      hreadsOther.exists_tail hsecondKind
    exact htail.same hbehind hshown
  · exact Token.displayWith_isConcealed

/-- A comment that holds a quote is shown alike at the start of a line and behind a blank, and
    so the two tokens are alike. -/
theorem tokens_told_by_lines_quote :
    ∃ (first second : Token) (lexer reached : Lexer),
      Lexer.Reaches (.ofSource (String.ofList ['#', '\x22'])) [.token first] lexer ∧
      Lexer.Reaches (.ofSource (String.ofList [' ', '#', '\x22'])) [.token second] reached ∧
      first.kind ≠ .float ∧ second.kind ≠ .float ∧ first.span ≠ second.span ∧
      first.displayWith Text.isConcealed = second.displayWith Text.isConcealed ∧
      first.value = second.value ∧ first.line = second.line := by
  obtain ⟨htold, -⟩ := tokens_told_by_lines
  have hquote : Kind.comment.Spells ['#', '\x22'] := by
    refine ⟨['\x22'], rfl, ?_⟩
    intro c hc
    rw [List.mem_singleton.mp hc]
    rfl
  have hblank : Piece.first? [' ', '#', '\x22'] = some ⟨.blank, [' '], ['#', '\x22']⟩ := rfl
  obtain ⟨lexer, hfirst⟩ := Lexer.exists_reaches_ofList (by decide : ['#', '\x22'].count '\n' ≤ _)
  obtain ⟨reached, hsecond⟩ :=
    Lexer.exists_reaches_ofList (by decide : [' ', '#', '\x22'].count '\n' ≤ _)
  rw [itemsFrom_word hquote] at hfirst
  rw [itemsFrom_of_first? hblank, itemsFrom_word hquote] at hsecond
  have hshown : (Kind.comment.tokenAt .start ['#', '\x22']).displayWith Text.isConcealed
      = (Kind.comment.tokenAt (Position.start.after [' ']) ['#', '\x22']).displayWith
        Text.isConcealed := rfl
  obtain ⟨-, hvalue, hline⟩ := htold Text.isConcealed _ _ _ _ _ _ hfirst hsecond _ _
    List.mem_cons_self List.mem_cons_self (by decide) (by decide) hshown
  exact ⟨_, _, _, _, hfirst, hsecond, by decide, by decide, by decide, hshown, hvalue, hline⟩

end ExprScan
