import ExprScan.Piece
import Mathlib.Data.List.Infix
import Mathlib.Data.List.TakeWhile
import Mathlib.Tactic.ByContra

/-! # Longest match

  A word is a text of one of the languages of the source: a token, a run of
  blanks or a run of line breaks. This module says which word is cut off
  first, without reference to the order in which the languages are tried.

  - A word has one category only (`Category.spells_unique`).
  - A part of a word from its start is a word again, unless it is a single
    character (`isWord_of_part`): a point or a `!` alone is none.
  - The first piece is the longest word that the text starts with, or a
    single character if there is no such word (`Piece.first?_longest`).

  From these it follows that one character of lookahead decides
  (`Piece.first?_append_iff`): a piece stands first exactly when no word goes
  on with the character behind it. Later modules use only this last
  statement and never open the order of trials again.
-/

namespace ExprScan

/-! ### Words -/

/-- The texts of a category. A character that starts no token has none. -/
def Category.Spells : Category → List Char → Prop
  | .blank, text => text ≠ [] ∧ ∀ c ∈ text, isBlank c = true
  | .lineBreaks, text => text ≠ [] ∧ ∀ c ∈ text, isLineBreak c = true
  | .token kind, text => kind.Spells text
  | .illegal _, _ => False

/-- A text of some category. -/
def IsWord (text : List Char) : Prop := ∃ category : Category, category.Spells text

theorem Category.Spells.ne_nil {category : Category} {text : List Char}
    (h : category.Spells text) : text ≠ [] := by
  match category, h with
  | .blank, h => exact h.1
  | .lineBreaks, h => exact h.1
  | .token .integer, h => exact h.1
  | .token .float, h =>
    obtain ⟨whole, fraction, rfl, _⟩ := h
    simp
  | .token .comment, h =>
    obtain ⟨body, rfl, _⟩ := h
    simp
  | .token (.symbol s), h => exact (show text = s.spelling from h) ▸ s.spelling_ne_nil

theorem allDigits_nil : AllDigits [] := by simp [AllDigits]

theorem AllDigits.append {first second : List Char} (h₁ : AllDigits first)
    (h₂ : AllDigits second) : AllDigits (first ++ second) := by
  intro c hc
  rcases List.mem_append.mp hc with hc | hc
  · exact h₁ c hc
  · exact h₂ c hc

/-- The digits at the start of a text end at a point. -/
theorem AllDigits.takeWhile_point {whole : List Char} (h : AllDigits whole) (after : List Char) :
    (whole ++ '.' :: after).takeWhile Char.isDigit = whole := by
  rw [List.takeWhile_append_of_pos h, List.takeWhile_cons_of_neg (by decide), List.append_nil]

theorem AllDigits.dropWhile_point {whole : List Char} (h : AllDigits whole) (after : List Char) :
    (whole ++ '.' :: after).dropWhile Char.isDigit = '.' :: after := by
  rw [List.dropWhile_append_of_pos h, List.dropWhile_cons_of_neg (by decide)]

theorem Symbol.length_spelling_le (s : Symbol) : s.spelling.length ≤ 2 := by
  cases s <;> decide

/-! ### First characters -/

/-- The classes of characters that tell categories apart. -/
inductive Initial where
  | blank
  | lineBreak
  | number
  | comment
  | other
deriving DecidableEq

/-- The class of a character. -/
def Initial.ofChar (c : Char) : Initial :=
  if isBlank c then blank
  else if isLineBreak c then lineBreak
  else if c.isDigit ∨ c = '.' then number
  else if c = '#' then comment
  else other

/-- The class of the first characters of a category. -/
def Category.initial : Category → Initial
  | .blank => .blank
  | .lineBreaks => .lineBreak
  | .token .integer | .token .float => .number
  | .token .comment => .comment
  | .token (.symbol _) | .illegal _ => .other

theorem not_isBlank_of_isDigit {c : Char} (h : c.isDigit = true) : isBlank c = false := by
  by_contra hblank
  simp only [isBlank, Bool.not_eq_false, Bool.or_eq_true, decide_eq_true_eq] at hblank
  rcases hblank with (rfl | rfl) | rfl <;> exact absurd h (by decide)

theorem not_isLineBreak_of_isDigit {c : Char} (h : c.isDigit = true) :
    isLineBreak c = false := by
  by_contra hbreak
  simp only [isLineBreak, Bool.not_eq_false, decide_eq_true_eq] at hbreak
  subst hbreak
  exact absurd h (by decide)

theorem Initial.ofChar_of_isDigit {c : Char} (h : c.isDigit = true) : ofChar c = number := by
  simp [ofChar, not_isBlank_of_isDigit h, not_isLineBreak_of_isDigit h, h]

theorem Initial.ofChar_point : ofChar '.' = number := by decide

/-- The first character of a word tells the class of its category. -/
theorem Category.initial_of_spells {category : Category} {c : Char} {more : List Char}
    (h : category.Spells (c :: more)) : Initial.ofChar c = category.initial := by
  match category, h with
  | .blank, h =>
    have hc := h.2 c List.mem_cons_self
    simp [Initial.ofChar, hc, initial]
  | .lineBreaks, h =>
    have hc : c = '\n' := by simpa [isLineBreak] using h.2 c List.mem_cons_self
    subst hc
    decide
  | .token .integer, h => exact Initial.ofChar_of_isDigit (h.2 c List.mem_cons_self)
  | .token .float, h =>
    -- With no digit before it, the point comes first.
    obtain ⟨whole, fraction, htext, hwhole, _⟩ := h
    cases whole with
    | nil =>
      obtain rfl : c = '.' := (List.cons.inj htext).1
      exact Initial.ofChar_point
    | cons d whole =>
      obtain rfl : c = d := (List.cons.inj htext).1
      exact Initial.ofChar_of_isDigit (hwhole c List.mem_cons_self)
  | .token .comment, h =>
    obtain ⟨body, htext, _⟩ := h
    obtain rfl : c = '#' := (List.cons.inj htext).1
    decide
  | .token (.symbol s), h =>
    have htext : c :: more = s.spelling := h
    cases s <;> (obtain rfl := (List.cons.inj htext).1; decide)

/-- No word has two categories. -/
theorem Category.spells_unique {first second : Category} {text : List Char}
    (h₁ : first.Spells text) (h₂ : second.Spells text) : first = second := by
  obtain ⟨c, more, rfl⟩ := List.exists_cons_of_ne_nil h₁.ne_nil
  have hinitial : first.initial = second.initial :=
    (initial_of_spells h₁).symm.trans (initial_of_spells h₂)
  -- The two kinds of numbers share their first characters; the point tells them apart.
  have hpoint : ∀ {t : List Char}, IsFloat t → ¬ AllDigits t := by
    rintro t ⟨whole, fraction, rfl, _⟩ hdigits
    exact absurd (hdigits '.' (by simp)) (by decide)
  match first, second, h₁, h₂ with
  | .blank, .blank, _, _ => rfl
  | .lineBreaks, .lineBreaks, _, _ => rfl
  | .token .integer, .token .integer, _, _ => rfl
  | .token .integer, .token .float, h₁, h₂ => exact absurd h₁.2 (hpoint h₂)
  | .token .float, .token .integer, h₁, h₂ => exact absurd h₂.2 (hpoint h₁)
  | .token .float, .token .float, _, _ => rfl
  | .token .comment, .token .comment, _, _ => rfl
  | .token (.symbol s), .token (.symbol t), h₁, h₂ =>
    have hs : c :: more = s.spelling := h₁
    have ht : c :: more = t.spelling := h₂
    rw [Symbol.spelling_injective (hs.symm.trans ht)]

/-! ### Parts of words -/

/-- A part of a word from its start is a word, unless it is a single character. -/
theorem isWord_of_part {part word : List Char} (hword : IsWord word) (hpart : part <+: word)
    (hlength : 2 ≤ part.length) : IsWord part := by
  obtain ⟨category, hspells⟩ := hword
  have hne : part ≠ [] := by
    rintro rfl
    simp at hlength
  match category, hspells with
  | .blank, h => exact ⟨.blank, hne, fun c hc => h.2 c (hpart.subset hc)⟩
  | .lineBreaks, h => exact ⟨.lineBreaks, hne, fun c hc => h.2 c (hpart.subset hc)⟩
  | .token .integer, h => exact ⟨.token .integer, hne, fun c hc => h.2 c (hpart.subset hc)⟩
  | .token .float, h =>
    -- The part ends in the digits before the point, or it takes in the point.
    obtain ⟨whole, fraction, rfl, hwhole, hfraction, _⟩ := h
    rcases List.prefix_or_prefix_of_prefix hpart (List.prefix_append whole _) with
      hpart | ⟨behind, rfl⟩
    · exact ⟨.token .integer, hne, fun c hc => hwhole c (hpart.subset hc)⟩
    · have hbehind := (List.prefix_append_right_inj whole).mp hpart
      cases behind with
      | nil => exact ⟨.token .integer, hne, by simpa using hwhole⟩
      | cons c behind =>
        obtain ⟨rfl, hafter⟩ := List.cons_prefix_cons.mp hbehind
        refine ⟨.token .float, whole, behind, rfl, hwhole,
          fun c hc => hfraction c (hafter.subset hc), ?_⟩
        -- Only a point alone has no digit on either side.
        by_contra hnone
        simp only [not_or, not_not] at hnone
        simp [hnone.1, hnone.2] at hlength
  | .token .comment, h =>
    obtain ⟨body, rfl, hbody⟩ := h
    obtain ⟨c, more, rfl⟩ := List.exists_cons_of_ne_nil hne
    obtain ⟨rfl, hmore⟩ := List.cons_prefix_cons.mp hpart
    exact ⟨.token .comment, more, rfl, fun c hc => hbody c (hmore.subset hc)⟩
  | .token (.symbol s), h =>
    -- No symbol has more than two characters, so the part is all of it.
    have htext : word = s.spelling := h
    have hs := s.length_spelling_le
    have hsame : part = word := hpart.eq_of_length_le (by rw [htext]; omega)
    exact ⟨.token (.symbol s), hsame ▸ h⟩

/-! ### The longest word -/

/-- What is known of a word at the start of a text that starts with `c`. -/
theorem IsWord.exists_cons {word : List Char} {c : Char} {more : List Char}
    (hword : IsWord word) (hstart : word <+: c :: more) :
    ∃ (category : Category) (tail : List Char), word = c :: tail ∧
      category.Spells (c :: tail) ∧ category.initial = Initial.ofChar c := by
  obtain ⟨category, hspells⟩ := hword
  obtain ⟨d, tail, rfl⟩ := List.exists_cons_of_ne_nil hspells.ne_nil
  obtain ⟨rfl, _⟩ := List.cons_prefix_cons.mp hstart
  exact ⟨category, tail, rfl, hspells, (Category.initial_of_spells hspells).symm⟩

namespace Piece

/-- A piece is the longest word that a text starts with. -/
structure Longest (piece : Piece) (text : List Char) : Prop where
  spells : piece.category.Spells piece.text
  length_le : ∀ word, IsWord word → word <+: text → word.length ≤ piece.text.length

/-! #### Runs -/

/-- A start of a text that is of one class lies in the run of that class. -/
theorem length_le_length_takeWhile {member : Char → Bool} {start text : List Char}
    (hstart : start <+: text) (hmember : ∀ c ∈ start, member c = true) :
    start.length ≤ (text.takeWhile member).length := by
  obtain ⟨rest, rfl⟩ := hstart
  rw [List.takeWhile_append_of_pos hmember, List.length_append]
  omega

/-- A run is the longest word if all words that could stand there are of its class. -/
theorem longest_run {category : Category} {member : Char → Bool} {c : Char} {more : List Char}
    (hspells : category.Spells ((c :: more).takeWhile member))
    (hwords : ∀ (k : Category) (tail : List Char), k.Spells (c :: tail) →
      c :: tail <+: c :: more → k.initial = Initial.ofChar c →
      ∀ d ∈ c :: tail, member d = true) :
    (run category member (c :: more)).Longest (c :: more) := by
  refine ⟨hspells, ?_⟩
  intro word hword hstart
  obtain ⟨k, tail, rfl, hk, hinitial⟩ := hword.exists_cons hstart
  exact length_le_length_takeWhile hstart (hwords k tail hk hstart hinitial)

theorem longest_blank {c : Char} {more : List Char} (hc : isBlank c = true) :
    (run .blank isBlank (c :: more)).Longest (c :: more) := by
  apply longest_run
  · exact ⟨by simp [hc], fun d hd => List.mem_takeWhile_imp hd⟩
  · intro k tail hk _ hinitial
    have hclass : Initial.ofChar c = .blank := by simp [Initial.ofChar, hc]
    rw [hclass] at hinitial
    match k, hk with
    | .blank, h => exact h.2

theorem longest_lineBreaks {c : Char} {more : List Char} (hc : isLineBreak c = true) :
    (run .lineBreaks isLineBreak (c :: more)).Longest (c :: more) := by
  apply longest_run
  · exact ⟨by simp [hc], fun d hd => List.mem_takeWhile_imp hd⟩
  · intro k tail hk _ hinitial
    obtain rfl : c = '\n' := by simpa [isLineBreak] using hc
    match k, hk with
    | .lineBreaks, h => exact h.2

theorem longest_comment {more : List Char} :
    (run (.token .comment) isCommentChar ('#' :: more)).Longest ('#' :: more) := by
  have hmark : isCommentChar '#' = true := by decide
  apply longest_run
  · exact ⟨more.takeWhile isCommentChar, by simp [hmark], fun d hd => List.mem_takeWhile_imp hd⟩
  · intro k tail hk _ hinitial
    match k, hk with
    | .token .comment, h =>
      obtain ⟨body, htext, hbody⟩ := h
      obtain ⟨-, rfl⟩ := List.cons.inj htext
      intro d hd
      rcases List.mem_cons.mp hd with rfl | hd
      · exact hmark
      · exact hbody d hd

/-! #### Numbers -/

/-- Where a text starts with a float, one is found that is at least as long. -/
theorem exists_float_of_start {word text : List Char} (hword : IsFloat word)
    (hstart : word <+: text) :
    ∃ piece, float? text = some piece ∧ word.length ≤ piece.text.length := by
  obtain ⟨rest, rfl⟩ := hstart
  obtain ⟨whole, fraction, rfl, hwhole, hfraction, hsome⟩ := hword
  -- The run of digits before the point stops at the point, and the run behind
  -- it takes in those of the word.
  have hafter : (fraction ++ rest).takeWhile Char.isDigit
      = fraction ++ rest.takeWhile Char.isDigit := List.takeWhile_append_of_pos hfraction
  have hneither : ¬ (whole = [] ∧ fraction ++ rest.takeWhile Char.isDigit = []) := by
    rintro ⟨hw, hf⟩
    rw [List.append_eq_nil_iff] at hf
    rcases hsome with h | h
    · exact h hw
    · exact h hf.1
  simp only [List.append_assoc, List.cons_append, float?, hwhole.takeWhile_point,
    hwhole.dropWhile_point, hafter, if_neg hneither]
  refine ⟨_, rfl, ?_⟩
  simp

/-- A float that is found is one, and takes in all digits at the start. -/
theorem isFloat_of_float? {text : List Char} {piece : Piece} (h : float? text = some piece) :
    piece.category = .token .float ∧ IsFloat piece.text ∧
      text.takeWhile Char.isDigit <+: piece.text := by
  simp only [float?] at h
  split at h
  · next after _ =>
    split at h
    · simp at h
    · next hneither =>
      obtain rfl := Option.some.inj h
      refine ⟨rfl, ⟨_, _, rfl, fun c hc => List.mem_takeWhile_imp hc,
        fun c hc => List.mem_takeWhile_imp hc, ?_⟩, List.prefix_append _ _⟩
      by_contra hnone
      simp only [not_or, not_not] at hnone
      exact hneither hnone
  · simp at h

theorem longest_float {c : Char} {more : List Char} {piece : Piece}
    (h : float? (c :: more) = some piece) : piece.Longest (c :: more) := by
  obtain ⟨hcategory, hfloat, hdigits⟩ := isFloat_of_float? h
  have hspells : piece.category.Spells piece.text := by
    rw [hcategory]
    exact hfloat
  have hstart : piece.text <+: c :: more := ⟨piece.rest, float?_text_append_rest h⟩
  refine ⟨hspells, ?_⟩
  intro word hword hstands
  -- The float found starts with the same character, so the word is a number too.
  obtain ⟨_, tail, htext, htail, _⟩ := IsWord.exists_cons ⟨_, hspells⟩ hstart
  rw [htext, hcategory] at hspells
  have hclass := Category.initial_of_spells hspells
  obtain ⟨k, tail, rfl, hk, hinitial⟩ := hword.exists_cons hstands
  rw [hclass] at hinitial
  match k, hk with
  | .token .integer, hk =>
    have := length_le_length_takeWhile hstands hk.2
    have := hdigits.length_le
    omega
  | .token .float, hk =>
    obtain ⟨other, hother, hlength⟩ := exists_float_of_start hk hstands
    rw [h] at hother
    rw [Option.some.inj hother]
    exact hlength

theorem longest_integer {c : Char} {more : List Char} (hnone : float? (c :: more) = none)
    (hc : c.isDigit = true) :
    (run (.token .integer) Char.isDigit (c :: more)).Longest (c :: more) := by
  apply longest_run
  · exact ⟨by simp [hc], fun d hd => List.mem_takeWhile_imp hd⟩
  · intro k tail hk hstands hinitial
    rw [Initial.ofChar_of_isDigit hc] at hinitial
    match k, hk with
    | .token .integer, hk => exact hk.2
    | .token .float, hk =>
      -- A float would have been found before.
      obtain ⟨piece, hpiece, _⟩ := exists_float_of_start hk hstands
      rw [hnone] at hpiece
      simp at hpiece

end Piece

/-! #### Symbols -/

/-- The symbol that is found is the longest one. -/
theorem Symbol.length_le_of_leading? {s t : Symbol} {text : List Char}
    (h : leading? text = some s) (ht : t.spelling <+: text) :
    t.spelling.length ≤ s.spelling.length := by
  obtain ⟨_, before, after, htable, hbefore⟩ := List.find?_eq_some_iff_append.mp h
  have hmem := mem_table t
  have hsorted := table_longest_first
  rw [htable] at hmem hsorted
  -- Symbols ahead of `s` in the table do not match; those behind are no longer.
  rcases List.mem_append.mp hmem with hmem | hmem
  · have hfound := List.isPrefixOf_iff_prefix.mpr ht
    have hpassed := hbefore t hmem
    simp [hfound] at hpassed
  · rcases List.mem_cons.mp hmem with rfl | hmem
    · exact Nat.le_refl _
    · exact List.rel_of_pairwise_cons (List.pairwise_append.mp hsorted).2.1 hmem

namespace Piece

theorem longest_symbol {c : Char} {more : List Char} {s : Symbol}
    (h : Symbol.leading? (c :: more) = some s) :
    Longest ⟨.token (.symbol s), s.spelling, (c :: more).drop s.spelling.length⟩ (c :: more) := by
  have hfound := List.find?_some h
  have hstart : s.spelling <+: c :: more := List.isPrefixOf_iff_prefix.mp hfound
  have hspells : Category.Spells (.token (.symbol s)) s.spelling := rfl
  refine ⟨hspells, ?_⟩
  intro word hword hstands
  obtain ⟨_, tail, htext, htail, _⟩ := IsWord.exists_cons ⟨_, hspells⟩ hstart
  rw [htext] at hspells
  have hclass := Category.initial_of_spells hspells
  obtain ⟨k, tail, rfl, hk, hinitial⟩ := hword.exists_cons hstands
  rw [hclass] at hinitial
  match k, hk with
  | .token (.symbol t), hk =>
    have ht : c :: tail = t.spelling := hk
    rw [ht] at hstands ⊢
    exact Symbol.length_le_of_leading? h hstands

/-! ### The first piece -/

/-- No word starts where no rule applies. -/
theorem not_isWord_of_illegal {c : Char} {more : List Char} (hblank : ¬ isBlank c = true)
    (hbreak : ¬ isLineBreak c = true) (hfloat : float? (c :: more) = none)
    (hdigit : ¬ c.isDigit = true) (hsymbol : Symbol.leading? (c :: more) = none)
    (hmark : ¬ c = '#') (word : List Char) (hstands : word <+: c :: more) : ¬ IsWord word := by
  intro hword
  obtain ⟨k, tail, rfl, hk, _⟩ := hword.exists_cons hstands
  match k, hk with
  | .blank, hk => exact hblank (hk.2 c List.mem_cons_self)
  | .lineBreaks, hk => exact hbreak (hk.2 c List.mem_cons_self)
  | .token .integer, hk => exact hdigit (hk.2 c List.mem_cons_self)
  | .token .float, hk =>
    obtain ⟨piece, hpiece, _⟩ := exists_float_of_start hk hstands
    rw [hfloat] at hpiece
    simp at hpiece
  | .token .comment, hk =>
    obtain ⟨body, htext, _⟩ := hk
    exact hmark (List.cons.inj htext).1
  | .token (.symbol t), hk =>
    have ht : c :: tail = t.spelling := hk
    rw [ht] at hstands
    have := List.find?_eq_none.mp hsymbol t (Symbol.mem_table t)
    exact this (List.isPrefixOf_iff_prefix.mpr hstands)

/-- **Longest match**: the first piece is the longest word that the text
    starts with; if there is none, it is the first character alone. -/
theorem cut_longest (c : Char) (more : List Char) :
    (cut c more).Longest (c :: more) ∨
      (cut c more = ⟨.illegal c, [c], more⟩ ∧ ∀ word, word <+: c :: more → ¬ IsWord word) := by
  -- One case for each trial of `cut`, in its order.
  simp only [cut]
  split
  · next hblank => exact Or.inl (longest_blank hblank)
  next hblank =>
  split
  · next hbreak => exact Or.inl (longest_lineBreaks hbreak)
  next hbreak =>
  split
  · next hfloat => exact Or.inl (longest_float hfloat)
  next hfloat =>
  split
  · next hdigit => exact Or.inl (longest_integer hfloat hdigit)
  next hdigit =>
  split
  · next hsymbol => exact Or.inl (longest_symbol hsymbol)
  next hsymbol =>
  split
  · next hmark =>
    subst hmark
    exact Or.inl longest_comment
  · next hmark =>
    exact Or.inr ⟨rfl, not_isWord_of_illegal hblank hbreak hfloat hdigit hsymbol hmark⟩

theorem first?_longest {text : List Char} {piece : Piece} (h : first? text = some piece) :
    piece.Longest text ∨ ∃ c, piece.category = .illegal c ∧ piece.text = [c] ∧
      ∀ word, word <+: text → ¬ IsWord word := by
  cases text with
  | nil => simp [first?] at h
  | cons c more =>
    obtain rfl := Option.some.inj h
    rcases cut_longest c more with hlongest | ⟨hcut, hnone⟩
    · exact Or.inl hlongest
    · rw [hcut]
      exact Or.inr ⟨c, rfl, rfl, hnone⟩

end Piece

/-! ### One character of lookahead -/

/-- What a piece looks like in itself: a word with its category, or a single
    character that is no word. -/
def Category.Labels (category : Category) (text : List Char) : Prop :=
  category.Spells text ∨ ∃ c, category = .illegal c ∧ text = [c] ∧ ¬ IsWord [c]

/-- No word goes on from a text with the next character. -/
def Settled (text rest : List Char) : Prop :=
  ∀ c, rest.head? = some c → ¬ IsWord (text ++ [c])

theorem Category.Labels.unique {first second : Category} {text : List Char}
    (h₁ : first.Labels text) (h₂ : second.Labels text) : first = second := by
  rcases h₁ with h₁ | ⟨c, rfl, rfl, h₁⟩
  · rcases h₂ with h₂ | ⟨d, -, rfl, h₂⟩
    · exact spells_unique h₁ h₂
    · exact absurd ⟨_, h₁⟩ h₂
  · rcases h₂ with h₂ | ⟨d, rfl, hd, -⟩
    · exact absurd ⟨_, h₂⟩ h₁
    · rw [(List.cons.inj hd).1]

/-- A piece that is no illegal character is a word. -/
theorem Category.Labels.spells {category : Category} {text : List Char}
    (h : category.Labels text) (hlegal : ∀ c, category ≠ .illegal c) :
    category.Spells text := by
  rcases h with hspells | ⟨c, hcategory, -⟩
  · exact hspells
  · exact absurd hcategory (hlegal c)

theorem Category.Labels.eq_singleton {c : Char} {text : List Char}
    (h : Labels (.illegal c) text) : text = [c] := by
  rcases h with hnone | ⟨d, hcategory, htext, -⟩
  · exact hnone.elim
  · obtain rfl : c = d := Category.illegal.inj hcategory
    exact htext

theorem Category.Labels.ne_nil {category : Category} {text : List Char}
    (h : category.Labels text) : text ≠ [] := by
  rcases h with hspells | ⟨c, -, rfl, -⟩
  · exact hspells.ne_nil
  · simp

/-- A word that goes on from a settled text does not stand in what follows. -/
theorem Settled.length_le {text rest word : List Char} (h : Settled text rest)
    (hne : text ≠ []) (hword : IsWord word) (hlonger : text <+: word)
    (hstands : word <+: text ++ rest) : word.length ≤ text.length := by
  obtain ⟨tail, rfl⟩ := hlonger
  have htail := (List.prefix_append_right_inj text).mp hstands
  cases tail with
  | nil => simp
  | cons c tail =>
    obtain ⟨rest, rfl⟩ := htail
    -- Up to the next character the word is a word already.
    have hpos := List.length_pos_iff.mpr hne
    have hpart : IsWord (text ++ [c]) := by
      refine isWord_of_part hword ⟨tail, by simp⟩ ?_
      rw [List.length_append, List.length_singleton]
      omega
    exact absurd hpart (h c rfl)

namespace Piece

theorem labels_of_first? {text : List Char} {piece : Piece} (h : first? text = some piece) :
    piece.category.Labels piece.text := by
  rcases first?_longest h with hlongest | ⟨c, hcategory, htext, hnone⟩
  · exact Or.inl hlongest.spells
  · have hstart : piece.text <+: text := ⟨piece.rest, text_append_rest h⟩
    rw [htext] at hstart
    exact Or.inr ⟨c, hcategory, htext, hnone [c] hstart⟩

theorem settled_of_first? {text : List Char} {piece : Piece} (h : first? text = some piece) :
    Settled piece.text piece.rest := by
  intro d hd hword
  have hstart : piece.text ++ [d] <+: text := by
    obtain ⟨rest, hrest⟩ := List.head?_eq_some_iff.mp hd
    refine ⟨rest, ?_⟩
    rw [← text_append_rest h, hrest]
    simp
  -- That word would have been taken, or some word where there is none.
  rcases first?_longest h with hlongest | ⟨c, _, _, hnone⟩
  · have hle := hlongest.length_le _ hword hstart
    rw [List.length_append, List.length_singleton] at hle
    omega
  · exact hnone _ hstart hword

/-- What looks like a piece at the start of a text lies in the first piece. -/
theorem start_of_labels {category : Category} {start text : List Char} {piece : Piece}
    (hlabels : category.Labels start) (hstands : start <+: text)
    (h : first? text = some piece) : start <+: piece.text := by
  have hfirst : piece.text <+: text := ⟨piece.rest, text_append_rest h⟩
  refine List.prefix_of_prefix_length_le hstands hfirst ?_
  -- The first piece is no shorter: it is the longest word, or neither is a word.
  rcases hlabels with hspells | ⟨c, -, rfl, -⟩
  · rcases first?_longest h with hlongest | ⟨_, _, _, hnone⟩
    · exact hlongest.length_le start ⟨_, hspells⟩ hstands
    · exact absurd ⟨_, hspells⟩ (hnone start hstands)
  · exact List.length_pos_iff.mpr (labels_of_first? h).ne_nil

/-- **Lookahead**: whether a piece comes first depends on its text and on
    one more character only. -/
theorem first?_append_iff {category : Category} {text rest : List Char} :
    first? (text ++ rest) = some ⟨category, text, rest⟩ ↔
      category.Labels text ∧ Settled text rest := by
  constructor
  · intro h
    exact ⟨labels_of_first? h, settled_of_first? h⟩
  · rintro ⟨hlabels, hsettled⟩
    obtain ⟨c, more, hcons⟩ := List.exists_cons_of_ne_nil hlabels.ne_nil
    obtain ⟨piece, hpiece⟩ : ∃ piece, first? (text ++ rest) = some piece := by
      rw [hcons]
      exact ⟨_, rfl⟩
    have hwhole := text_append_rest hpiece
    have hfirst := labels_of_first? hpiece
    have hlonger := start_of_labels hlabels (List.prefix_append text rest) hpiece
    -- It is no longer either: a longer word would go on with the next character.
    have hsame : text = piece.text := by
      refine hlonger.eq_of_length_le ?_
      rcases hfirst with hspells | ⟨d, -, htext, -⟩
      · exact hsettled.length_le hlabels.ne_nil ⟨_, hspells⟩ hlonger ⟨piece.rest, hwhole⟩
      · rw [htext]
        exact List.length_pos_iff.mpr hlabels.ne_nil
    have hcategory : piece.category = category := by
      rw [← hsame] at hfirst
      exact hfirst.unique hlabels
    have hrest : piece.rest = rest := by
      rw [← hsame] at hwhole
      exact List.append_cancel_left hwhole
    rw [hpiece, ← hcategory, hsame, ← hrest]

end Piece

end ExprScan
