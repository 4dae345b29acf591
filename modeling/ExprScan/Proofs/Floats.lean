import ExprScan.Proofs.Integers
import ExprScan.Proofs.Rounding

/-! # Literals with a point

  A literal with a point denotes a ratio (`Denotes`), and the value of its token
  is what this ratio is rounded to. Nothing is rounded on the way: all the digits
  go into the ratio, however many there are on either side of the point. So the
  value depends on the ratio alone, and zeros ahead of a literal or behind it
  make no difference.

  A ratio of digits is never rounded to a NaN, so a token is equal to itself even
  though floating-point values are compared as numbers.
-/

namespace ExprScan

/-! ### The ratio of a literal -/

/-- A literal with a point denotes a ratio: all its digits as one number, over ten to the number
    of digits behind the point. -/
def Denotes (literal : List Char) (q : ℚ) : Prop :=
  ∃ whole fraction, literal = whole ++ '.' :: fraction ∧ AllDigits whole ∧ AllDigits fraction ∧
    (whole ≠ [] ∨ fraction ≠ []) ∧ q = decimalOf (whole ++ fraction) / 10 ^ fraction.length

theorem Denotes.isFloat {literal : List Char} {q : ℚ} (h : Denotes literal q) :
    IsFloat literal := by
  obtain ⟨whole, fraction, htext, hwhole, hfraction, hne, -⟩ := h
  exact ⟨whole, fraction, htext, hwhole, hfraction, hne⟩

theorem IsFloat.exists_denotes {literal : List Char} (h : IsFloat literal) :
    ∃ q, Denotes literal q := by
  obtain ⟨whole, fraction, htext, hwhole, hfraction, hne⟩ := h
  exact ⟨_, whole, fraction, htext, hwhole, hfraction, hne, rfl⟩

theorem allDigits_replicate_zero (n : ℕ) : AllDigits (List.replicate n '0') := by
  intro c hc
  rw [List.eq_of_mem_replicate hc]
  rfl

theorem decimalOf_append (first second : List Char) :
    decimalOf (first ++ second) = decimalOf first * 10 ^ second.length + decimalOf second := by
  unfold decimalOf
  rw [List.reverse_append, List.map_append, Nat.ofDigits_append, List.length_map,
    List.length_reverse]
  ring

theorem decimalOf_replicate_zero (n : ℕ) : decimalOf (List.replicate n '0') = 0 := by
  unfold decimalOf
  rw [List.reverse_replicate, List.map_replicate]
  exact Nat.ofDigits_replicate_zero

/-- A number written out with a point behind it denotes the number. -/
theorem denotes_toDigits (n : ℕ) : Denotes (Nat.toDigits 10 n ++ ['.']) n := by
  obtain ⟨hne, hdigits⟩ := spells_toDigits n
  refine ⟨_, [], rfl, hdigits, allDigits_nil, Or.inl hne, ?_⟩
  rw [List.append_nil, ← naturalOf_eq_decimalOf, naturalOf_toDigits, List.length_nil, pow_zero,
    div_one]

/-- Zeros on either side of a literal do not change what it denotes. -/
theorem Denotes.zeros {literal : List Char} {q : ℚ} (h : Denotes literal q) (m n : ℕ) :
    Denotes (List.replicate m '0' ++ literal ++ List.replicate n '0') q := by
  obtain ⟨whole, fraction, rfl, hwhole, hfraction, hne, rfl⟩ := h
  refine ⟨List.replicate m '0' ++ whole, fraction ++ List.replicate n '0', ?_,
    (allDigits_replicate_zero m).append hwhole, hfraction.append (allDigits_replicate_zero n),
    ?_, ?_⟩
  · simp only [List.append_assoc, List.cons_append]
  · rcases hne with hne | hne
    · exact Or.inl (List.append_ne_nil_of_right_ne_nil _ hne)
    · exact Or.inr (List.append_ne_nil_of_left_ne_nil hne _)
  · have hdigits : decimalOf (List.replicate m '0' ++ whole ++ (fraction ++ List.replicate n '0'))
        = decimalOf (whole ++ fraction) * 10 ^ n := by
      rw [← List.append_assoc, List.append_assoc _ whole, decimalOf_append _ (List.replicate n '0'),
        decimalOf_append (List.replicate m '0'), decimalOf_replicate_zero, decimalOf_replicate_zero,
        List.length_replicate, Nat.zero_mul, Nat.zero_add, Nat.add_zero]
    rw [hdigits, List.length_append, List.length_replicate, pow_add, Nat.cast_mul, Nat.cast_pow,
      Nat.cast_ofNat, mul_div_mul_right _ _ (by positivity)]

/-- A literal denotes just one ratio. -/
theorem Denotes.unique {literal : List Char} {p q : ℚ} (hp : Denotes literal p)
    (hq : Denotes literal q) : p = q := by
  obtain ⟨whole, fraction, rfl, hwhole, -, -, rfl⟩ := hp
  obtain ⟨whole', fraction', hsame, hwhole', -, -, rfl⟩ := hq
  -- The point is where the first digits end, so there is one way to take the literal apart.
  have hfirst : whole = whole' := by
    rw [← hwhole.takeWhile_point fraction, hsame, hwhole'.takeWhile_point fraction']
  subst hfirst
  rw [(List.cons.inj (List.append_cancel_left hsame)).2]

/-! ### What the reader builds -/

/-- The reader accepts digits with a point among them, and rounds their ratio. -/
theorem readDecimal?_append {whole fraction : List Char} (hwhole : AllDigits whole)
    (hfraction : AllDigits fraction) (hne : whole ≠ [] ∨ fraction ≠ []) :
    readDecimal? (whole ++ '.' :: fraction)
      = some (.ofRatio (decimalOf (whole ++ fraction)) (10 ^ fraction.length)) := by
  unfold readDecimal?
  simp only [hwhole.takeWhile_point, hwhole.dropWhile_point, List.drop_one, List.tail_cons]
  rw [if_pos ⟨Or.inr rfl, List.all_eq_true.mpr hfraction, hne⟩, naturalOf_eq_decimalOf]
  rfl

/-- A literal is never refused, and its value is what the ratio that it denotes is rounded to. -/
theorem Denotes.exists_valueOf {literal : List Char} {q : ℚ} (h : Denotes literal q) :
    ∃ x, Kind.float.valueOf literal = .float x ∧ readDecimal? literal = some x ∧ x.Rounds q := by
  obtain ⟨whole, fraction, rfl, hwhole, hfraction, hne, rfl⟩ := h
  have hread := readDecimal?_append hwhole hfraction hne
  have hpos : 0 < 10 ^ fraction.length := Nat.pow_pos (by decide)
  have hrounds := Binary64.rounds_ofRatio (decimalOf (whole ++ fraction)) hpos
  rw [Nat.cast_pow, Nat.cast_ofNat] at hrounds
  refine ⟨_, ?_, hread, hrounds⟩
  -- Since the reader accepts the literal, the zero for a refusal does not come in.
  show Value.float ((readDecimal? _).getD ⟨0⟩) = _
  rw [hread, Option.getD_some]

/-! ### Equality with oneself -/

theorem Binary64.sameNumber_self {x : Binary64} (h : x.isNaN = false) : x.sameNumber x = true := by
  unfold sameNumber
  rw [h, decide_eq_true rfl]
  rfl

/-- A token is equal to itself if its value is not a NaN. -/
theorem Token.same_self {token : Token} (h : ∀ x, token.value = .float x → x.isNaN = false) :
    token.same token = true := by
  have hvalue : token.value.same token.value = true := by
    cases hcase : token.value with
    | absent => rfl
    | integer n => exact decide_eq_true rfl
    | bigInteger n => exact decide_eq_true rfl
    | float x => exact Binary64.sameNumber_self (h x hcase)
    | text s => exact decide_eq_true rfl
  unfold same
  rw [hvalue]
  simp

/-- Only a literal with a point has a floating-point value. -/
theorem Kind.eq_float_of_valueOf {kind : Kind} {word : List Char} {x : Binary64}
    (h : kind.valueOf word = .float x) : kind = .float := by
  cases kind with
  | symbol s => exact nomatch h
  | integer =>
    have hread : Value.read word = .float x := h
    unfold Value.read at hread
    split at hread <;> exact nomatch hread
  | float => rfl
  | comment => exact nomatch h

/-! ### Tokens -/

/-- A scan of the source gives the token, also if it is cut short. -/
def Token.IsScanned (token : Token) (source : String) : Prop :=
  ∃ given lexer, Lexer.Reaches (.ofSource source) given lexer ∧ .token token ∈ given

theorem Token.IsScanned.exists_reads {token : Token} {source : String}
    (h : token.IsScanned source) : ∃ word, token.Reads source word := by
  obtain ⟨given, lexer, hreaches, htoken⟩ := h
  exact ExprScan.exists_reads (hreaches.mem_itemsFrom htoken)

/-- A word by itself is scanned as one token. -/
theorem Kind.Spells.isScanned {kind : Kind} {word : List Char} (h : kind.Spells word) :
    (kind.tokenAt .start word).IsScanned (String.ofList word) := by
  have hlines : word.count '\n' ≤ 4294967294 := by
    rw [List.count_eq_zero_of_not_mem h.lineFeed_notMem]
    exact Nat.zero_le _
  obtain ⟨lexer, hreaches⟩ := Lexer.exists_reaches_ofList hlines
  rw [itemsFrom_word h] at hreaches
  exact ⟨_, lexer, hreaches, List.mem_cons_self⟩

theorem Kind.Spells.lexeme_tokenAt {kind : Kind} {word : List Char} (h : kind.Spells word) :
    (kind.tokenAt .start word).lexeme (String.ofList word) = .ok (String.ofList word) := by
  have hsource : (String.ofList word).toList = [] ++ (word ++ []) := by
    rw [String.toList_ofList, List.append_nil, List.nil_append]
  exact (h.reads_tokenAt hsource rfl).lexeme_eq

section scanned

variable {source : String} {token : Token} (h : token.IsScanned source)

include h

/-- The lexeme of a literal with a point denotes a ratio, and the token has what the reader
    rounds it to. -/
theorem Token.IsScanned.exists_rounds (hkind : token.kind = .float) :
    ∃ literal q x, token.lexeme source = .ok (String.ofList literal) ∧ Denotes literal q ∧
      token.value = .float x ∧ readDecimal? literal = some x ∧ x.Rounds q := by
  obtain ⟨word, hreads⟩ := h.exists_reads
  have hspells := hreads.spells
  have hvalue := hreads.value_eq
  rw [hkind] at hspells hvalue
  obtain ⟨q, hdenotes⟩ := IsFloat.exists_denotes hspells
  obtain ⟨x, hvalueOf, hread, hrounds⟩ := hdenotes.exists_valueOf
  refine ⟨word.toList, q, x, ?_, hdenotes, hvalue.trans hvalueOf, hread, hrounds⟩
  rw [hreads.lexeme_eq, String.ofList_toList]

/-- No token has a NaN, so each is equal to itself. -/
theorem Token.IsScanned.same_self : token.same token = true := by
  apply Token.same_self
  intro x hx
  obtain ⟨word, hreads⟩ := h.exists_reads
  have hkind := Kind.eq_float_of_valueOf (hreads.value_eq.symm.trans hx)
  obtain ⟨literal, q, y, -, -, hvalue, -, hrounds⟩ := h.exists_rounds hkind
  rw [Value.float.inj (hx.symm.trans hvalue)]
  exact hrounds.not_nan

/-- The value of a token is what the ratio that its lexeme denotes is rounded to. -/
theorem Token.IsScanned.rounds (hkind : token.kind = .float) {literal : List Char} {q : ℚ}
    (hlexeme : token.lexeme source = .ok (String.ofList literal)) (hdenotes : Denotes literal q) :
    ∃ x, token.value = .float x ∧ x.Rounds q := by
  obtain ⟨read, p, x, hread, hreadDenotes, hvalue, -, hrounds⟩ := h.exists_rounds hkind
  have hsame : read = literal := String.ofList_injective (Except.ok.inj (hread.symm.trans hlexeme))
  rw [hsame] at hreadDenotes
  rw [hreadDenotes.unique hdenotes] at hrounds
  exact ⟨x, hvalue, hrounds⟩

end scanned

/-- **Literals with a point**: each token of one that a scan gives, also in a scan that is cut
    short, holds what the ratio of its lexeme is rounded to, which is a single value, and a reader
    of such texts accepts the lexeme with that value. Tokens whose lexemes denote the same ratio
    have the same value, bit for bit, whatever sources they are from, and zeros around a literal
    leave its ratio as it is. Every token that a scan gives is equal to itself. -/
theorem floats_are_rounded_once :
    (∀ (source : String) (token : Token), token.IsScanned source → token.kind = .float →
      ∃ literal q x, token.lexeme source = .ok (String.ofList literal) ∧ Denotes literal q ∧
        (∀ p, Denotes literal p → p = q) ∧ token.value = .float x ∧ x.Rounds q ∧
        (∀ y : Binary64, y.Rounds q → y = x) ∧ readDecimal? literal = some x) ∧
    (∀ (source : String) (token : Token), token.IsScanned source → token.kind = .float →
      ∀ (source' : String) (token' : Token), token'.IsScanned source' → token'.kind = .float →
        ∀ literal literal' q, token.lexeme source = .ok (String.ofList literal) →
          token'.lexeme source' = .ok (String.ofList literal') →
          Denotes literal q → Denotes literal' q → token.value = token'.value) ∧
    (∀ literal q, Denotes literal q → ∀ m n : ℕ,
      Denotes (List.replicate m '0' ++ literal ++ List.replicate n '0') q) ∧
    ∀ (source : String) (token : Token), token.IsScanned source → token.same token = true := by
  refine ⟨?_, ?_, ?_, ?_⟩
  · intro source token hscanned hkind
    obtain ⟨literal, q, x, hlexeme, hdenotes, hvalue, hread, hrounds⟩ :=
      hscanned.exists_rounds hkind
    refine ⟨literal, q, x, hlexeme, hdenotes, ?_, hvalue, hrounds, ?_, hread⟩
    · intro p hp
      exact hp.unique hdenotes
    · intro y hy
      exact hy.unique hrounds
  · intro source token hscanned hkind source' token' hscanned' hkind' literal literal' q hlexeme
      hlexeme' hdenotes hdenotes'
    obtain ⟨x, hvalue, hrounds⟩ := hscanned.rounds hkind hlexeme hdenotes
    obtain ⟨x', hvalue', hrounds'⟩ := hscanned'.rounds hkind' hlexeme' hdenotes'
    rw [hvalue, hvalue', hrounds.unique hrounds']
  · intro literal q hdenotes
    exact hdenotes.zeros
  · intro source token hscanned
    exact hscanned.same_self

/-- A number just between two values becomes the even one, also when it is written with zeros
    around it. -/
theorem floats_are_rounded_once_between :
    ∃ literal x,
      literal = Nat.toDigits 10 9007199254740993 ++ ['.'] ∧ Denotes literal 9007199254740993 ∧
      Kind.float.tokenAt .start literal
        = ⟨.float, .float ⟨0x4340000000000000⟩, 1, 0, literal.length⟩ ∧
      (Kind.float.tokenAt .start literal).value = .float x ∧ x.Rounds 9007199254740993 ∧
      (Kind.float.tokenAt .start literal).same (Kind.float.tokenAt .start literal) = true ∧
      (Kind.float.tokenAt .start literal).value
        = (Kind.float.tokenAt .start ('0' :: literal ++ ['0', '0'])).value := by
  obtain ⟨hvalues, hequal, hpadded, hself⟩ := floats_are_rounded_once
  obtain ⟨literal, hliteral⟩ : ∃ literal, literal = Nat.toDigits 10 9007199254740993 ++ ['.'] :=
    ⟨_, rfl⟩
  have hdenotes : Denotes literal 9007199254740993 := by
    rw [hliteral]
    exact_mod_cast denotes_toDigits 9007199254740993
  have hzeros : Denotes ('0' :: literal ++ ['0', '0']) 9007199254740993 := hpadded _ _ hdenotes 1 2
  have hfloat : Kind.float.Spells literal := hdenotes.isFloat
  have hfloat' : Kind.float.Spells ('0' :: literal ++ ['0', '0']) := hzeros.isFloat
  obtain ⟨read, q, x, hlexeme, hread, -, hvalue, hrounds, -⟩ :=
    hvalues _ _ hfloat.isScanned rfl
  have hsame : literal = read :=
    String.ofList_injective (Except.ok.inj (hfloat.lexeme_tokenAt.symm.trans hlexeme))
  rw [← hsame] at hread
  rw [hread.unique hdenotes] at hrounds
  refine ⟨literal, x, hliteral, hdenotes, ?_, hvalue, hrounds, hself _ _ hfloat.isScanned, ?_⟩
  · rw [hliteral]
    decide +kernel
  · exact hequal _ _ hfloat.isScanned rfl _ _ hfloat'.isScanned rfl _ _ _
      hfloat.lexeme_tokenAt hfloat'.lexeme_tokenAt hdenotes hzeros

end ExprScan
