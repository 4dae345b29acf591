import ExprScan.Proofs.RoundTrip
import Mathlib.Data.Nat.Digits.Defs

/-! # Whole numbers

  A run of digits has a value by the places of its digits, and a token holds
  exactly that value, in 64 bits where it fits and in a number of any size
  beyond (`Value.Holds`). Leading zeros make no difference to either.

  The value is built by two readers, and the second is asked only where the
  first gives up. A number only grows with each digit, so once the first reader
  gives up the whole number does not fit either (`foldlM_appendDigit?`), and the
  second reader accepts whatever the first one gives up on. So what is read from
  digits is their value, and never the zero that is kept for a refusal by both
  (`Value.holds_read`).
-/

namespace ExprScan

/-! ### Places of digits -/

/-- The number that decimal digits write, by their places: the last digit counts once, and each
    one counts ten times as much as the one behind it. -/
def decimalOf (digits : List Char) : Nat := Nat.ofDigits 10 (digits.reverse.map digitOf)

/-- Reading digits from the left comes to the same as adding them up by their places. -/
theorem naturalOf_eq_decimalOf (digits : List Char) : naturalOf digits = decimalOf digits := by
  unfold naturalOf decimalOf
  -- From the right: the last digit is read last, and it counts once.
  induction digits using List.reverseRecOn with
  | nil => rfl
  | append_singleton digits c ih =>
    rw [Nat.ofDigitChars_append, ih, List.reverse_concat, List.map_cons, Nat.ofDigits_cons,
      Nat.add_comm]
    rfl

/-- A value is that of a whole number: it holds the number in 64 bits if it fits, and in a
    number of any size otherwise. -/
def Value.Holds (n : Nat) : Value → Prop
  | .integer x => n ≤ 9223372036854775807 ∧ x.toInt = n
  | .bigInteger x => 9223372036854775807 < n ∧ x = n
  | .absent | .float _ | .text _ => False

theorem toInt_ofNat_of_le {n : Nat} (h : n ≤ 9223372036854775807) :
    (Int64.ofNat n).toInt = n :=
  Int64.toInt_ofNat_of_lt (by omega)

/-- Only one value holds a number. -/
theorem Value.Holds.unique {n : Nat} {first second : Value} (h₁ : first.Holds n)
    (h₂ : second.Holds n) : first = second := by
  match first, second, h₁, h₂ with
  | .integer x, .integer y, h₁, h₂ =>
    rw [Int64.toInt_inj.mp (h₁.2.trans h₂.2.symm)]
  | .bigInteger x, .bigInteger y, h₁, h₂ =>
    rw [h₁.2, h₂.2]
  | .integer x, .bigInteger y, h₁, h₂ => exact absurd h₁.1 (Nat.not_le_of_lt h₂.1)
  | .bigInteger x, .integer y, h₁, h₂ => exact absurd h₂.1 (Nat.not_le_of_lt h₁.1)

/-! ### Two readers -/

/-- A natural number in 64 bits, if they hold it. -/
theorem within64?_natCast (n : Nat) :
    within64? n = if n ≤ 9223372036854775807 then some (Int64.ofNat n) else none := by
  unfold within64?
  rw [Int64.ofInt_eq_ofNat]
  by_cases hfits : n ≤ 9223372036854775807
  · rw [if_pos hfits, if_pos (by omega)]
  · rw [if_neg hfits, if_neg (by omega)]

/-- A digit is appended if the number with it fits. -/
theorem appendDigit?_ofNat {n : Nat} {c : Char} (hn : n ≤ 9223372036854775807)
    (hc : c.isDigit = true) :
    appendDigit? (Int64.ofNat n) c =
      if 10 * n + digitOf c ≤ 9223372036854775807 then some (Int64.ofNat (10 * n + digitOf c))
      else none := by
  have hshifted : (n : Int) * 10 = (10 * n : Nat) := by omega
  unfold appendDigit?
  rw [if_pos hc, toInt_ofNat_of_le hn, hshifted, within64?_natCast]
  by_cases hten : 10 * n ≤ 9223372036854775807
  · have hsum : ((10 * n : Nat) : Int) + digitOf c = (10 * n + digitOf c : Nat) := by omega
    rw [if_pos hten, Option.bind_eq_bind, Option.bind_some, toInt_ofNat_of_le hten, hsum,
      within64?_natCast]
  · -- The multiplication gives up, and with the digit the number is no smaller.
    rw [if_neg hten, if_neg (by omega)]
    rfl

/-- A number does not get smaller by more digits. -/
theorem le_ofDigitChars (digits : List Char) (n : Nat) : n ≤ Nat.ofDigitChars 10 digits n := by
  have hpos : 0 < 10 ^ digits.length := Nat.pow_pos (by decide)
  rw [Nat.ofDigitChars_eq_ofDigitChars_zero]
  exact Nat.le_trans (Nat.le_mul_of_pos_left n hpos) (Nat.le_add_right _ _)

/-- Reading on from a number gives the number with all the digits, if it fits. -/
theorem foldlM_appendDigit? {digits : List Char} (hdigits : AllDigits digits) {n : Nat}
    (hn : n ≤ 9223372036854775807) :
    digits.foldlM appendDigit? (Int64.ofNat n) =
      if Nat.ofDigitChars 10 digits n ≤ 9223372036854775807 then
        some (Int64.ofNat (Nat.ofDigitChars 10 digits n))
      else none := by
  induction digits generalizing n with
  | nil =>
    rw [List.foldlM_nil, Nat.ofDigitChars_nil, if_pos hn]
    rfl
  | cons c digits ih =>
    have hc := hdigits c List.mem_cons_self
    have hmore : AllDigits digits := fun d hd => hdigits d (List.mem_cons_of_mem c hd)
    have hdigit : c.toNat - '0'.toNat = digitOf c := rfl
    rw [List.foldlM_cons, appendDigit?_ofNat hn hc, Nat.ofDigitChars_cons, hdigit]
    by_cases hnext : 10 * n + digitOf c ≤ 9223372036854775807
    · rw [if_pos hnext]
      exact ih hmore hnext
    · -- The number has left 64 bits and does not come back.
      have hgrows := le_ofDigitChars digits (10 * n + digitOf c)
      rw [if_neg hnext, if_neg (by omega)]
      rfl

section digits

variable {digits : List Char}

theorem readWithin64?_eq (hne : digits ≠ []) (hdigits : AllDigits digits) :
    readWithin64? digits =
      if naturalOf digits ≤ 9223372036854775807 then some (Int64.ofNat (naturalOf digits))
      else none := by
  unfold readWithin64?
  rw [if_neg hne]
  exact foldlM_appendDigit? hdigits (Nat.zero_le _)

/-- The second reader accepts all digits. -/
theorem readWhole?_eq (hne : digits ≠ []) (hdigits : AllDigits digits) :
    readWhole? digits = some (naturalOf digits : Int) := by
  unfold readWhole?
  rw [if_pos ⟨hne, List.all_eq_true.mpr hdigits⟩]

/-- The value that is read from digits holds the number that they write. -/
theorem Value.holds_read (hne : digits ≠ []) (hdigits : AllDigits digits) :
    (Value.read digits).Holds (naturalOf digits) := by
  unfold read
  rw [readWithin64?_eq hne hdigits, readWhole?_eq hne hdigits]
  by_cases hfits : naturalOf digits ≤ 9223372036854775807
  · rw [if_pos hfits]
    exact ⟨hfits, toInt_ofNat_of_le hfits⟩
  · rw [if_neg hfits]
    exact ⟨Nat.lt_of_not_le hfits, rfl⟩

end digits

/-! ### Numbers written out -/

theorem utf8Size_of_isDigit {c : Char} (h : c.isDigit = true) : c.utf8Size = 1 := by
  rw [Char.utf8Size_eq_one_iff]
  simp only [Char.isDigit, Bool.and_eq_true, decide_eq_true_eq] at h
  exact Nat.le_trans h.2 (by decide)

theorem byteLength_of_allDigits {digits : List Char} (h : AllDigits digits) :
    Text.byteLength digits = digits.length := by
  induction digits with
  | nil => rfl
  | cons c digits ih =>
    have hmore : AllDigits digits := fun d hd => h d (List.mem_cons_of_mem c hd)
    rw [Text.byteLength_cons, utf8Size_of_isDigit (h c List.mem_cons_self), ih hmore,
      List.length_cons, Nat.add_comm]

/-- A number is written in decimal digits. -/
theorem spells_toDigits (n : Nat) : Kind.integer.Spells (Nat.toDigits 10 n) :=
  ⟨Nat.toDigits_ne_nil, fun _ hc => Nat.isDigit_of_mem_toDigits (by decide) (by decide) hc⟩

theorem naturalOf_toDigits (n : Nat) : naturalOf (Nat.toDigits 10 n) = n :=
  Nat.ofDigitChars_toDigits (by decide) (by decide)

/-- The value that is read from the digits of a number holds the number. -/
theorem Value.holds_read_toDigits (n : Nat) : (Value.read (Nat.toDigits 10 n)).Holds n := by
  have hspells := spells_toDigits n
  have hholds := Value.holds_read hspells.1 hspells.2
  rwa [naturalOf_toDigits] at hholds

/-- A value that holds a number is shown as the digits of the number. -/
theorem Value.Holds.display_eq {value : Value} {n : Nat} (h : value.Holds n) :
    value.display = String.ofList (Nat.toDigits 10 n) := by
  rw [← Nat.toString_eq_ofList_toDigits]
  match value, h with
  | .integer x, h =>
    show toString x.toInt = toString n
    rw [h.2]
    rfl
  | .bigInteger x, h =>
    show toString x = toString n
    rw [h.2]
    rfl

/-- The digits of a number are scanned as one token with the value that holds the number. -/
theorem tokenize_toDigits {value : Value} {n : Nat} (h : value.Holds n) :
    tokenize (String.ofList (Nat.toDigits 10 n))
      = .ok ([⟨.integer, value, 1, 0, (Nat.toDigits 10 n).length⟩], []) := by
  have hspells := spells_toDigits n
  have hlines : (String.ofList (Nat.toDigits 10 n)).toList.count '\n' ≤ 4294967294 := by
    rw [String.toList_ofList, List.count_eq_zero_of_not_mem hspells.lineFeed_notMem]
    exact Nat.zero_le _
  have hvalue : Kind.integer.valueOf (Nat.toDigits 10 n) = value :=
    (Value.holds_read_toDigits n).unique h
  have htoken : Kind.integer.tokenAt .start (Nat.toDigits 10 n)
      = ⟨.integer, value, 1, 0, (Nat.toDigits 10 n).length⟩ := by
    unfold Kind.tokenAt
    rw [hvalue, byteLength_of_allDigits hspells.2]
    simp [Position.start]
  obtain ⟨drained, hdrain, hitems⟩ := Lexer.exists_drain_ofSource hlines
  -- The digits are a single word, so nothing else is scanned.
  rw [tokenize_eq hdrain, hitems, String.toList_ofList, itemsFrom_word hspells, htoken]
  rfl

/-- **Whole numbers**: each integer token that a scan gives, also in a scan that is cut short,
    is written in digits, and its value holds the number that the digits write by their places.
    It is what the two readers build, and the second of them accepts the digits. Conversely,
    just one value holds a natural number, and what it is shown as is scanned as one integer
    token on line 1 with that value, without a report. -/
theorem integers_keep_their_value :
    (∀ source given lexer, Lexer.Reaches (.ofSource source) given lexer →
      ∀ token, .token token ∈ given → token.kind = .integer →
        ∃ digits, token.lexeme source = .ok (String.ofList digits) ∧
          digits ≠ [] ∧ AllDigits digits ∧ token.value.Holds (decimalOf digits) ∧
          token.value = Value.read digits ∧ readWhole? digits = some (decimalOf digits : Int)) ∧
    ∀ n : Nat, ∃ value : Value, value.Holds n ∧ (∀ other : Value, other.Holds n → other = value) ∧
      tokenize value.display
        = .ok ([⟨.integer, value, 1, 0, (Nat.toDigits 10 n).length⟩], []) := by
  constructor
  · intro source given lexer hreaches token htoken hkind
    obtain ⟨word, hreads⟩ := exists_reads (hreaches.mem_itemsFrom htoken)
    have hspells := hreads.spells
    have hvalue := hreads.value_eq
    rw [hkind] at hspells hvalue
    obtain ⟨hne, hdigits⟩ := hspells
    refine ⟨word.toList, ?_, hne, hdigits, ?_, hvalue, ?_⟩
    · rw [hreads.lexeme_eq, String.ofList_toList]
    · rw [hvalue, ← naturalOf_eq_decimalOf]
      exact Value.holds_read hne hdigits
    · rw [readWhole?_eq hne hdigits, naturalOf_eq_decimalOf]
  · intro n
    have hholds := Value.holds_read_toDigits n
    refine ⟨.read (Nat.toDigits 10 n), hholds, ?_, ?_⟩
    · intro other hother
      exact hother.unique hholds
    · rw [hholds.display_eq, tokenize_toDigits hholds]

/-- The least number past 64 bits is held in a number of any size, also when it is written with
    zeros before it, and what it is shown as is scanned again. -/
theorem integers_keep_their_value_past_64_bits :
    ∃ source lexer,
      source.toList = '0' :: '0' :: Nat.toDigits 10 9223372036854775808 ∧
      Lexer.Reaches (.ofSource source)
        [.token ⟨.integer, .bigInteger 9223372036854775808, 1, 0, 21⟩] lexer ∧
      (∃ digits, Token.lexeme ⟨.integer, .bigInteger 9223372036854775808, 1, 0, 21⟩ source
          = .ok (String.ofList digits) ∧
        (Value.bigInteger 9223372036854775808).Holds (decimalOf digits)) ∧
      ∃ value : Value, value.Holds 9223372036854775808 ∧
        ∃ token, tokenize value.display = .ok ([token], []) ∧ token.value = value := by
  obtain ⟨hscanned, hshown⟩ := integers_keep_their_value
  have htext : (String.ofList ('0' :: '0' :: Nat.toDigits 10 9223372036854775808)).toList
      = '0' :: '0' :: Nat.toDigits 10 9223372036854775808 := String.toList_ofList
  have hspells : Kind.integer.Spells ('0' :: '0' :: Nat.toDigits 10 9223372036854775808) := by
    refine ⟨List.cons_ne_nil _ _, ?_⟩
    intro c hc
    rcases List.mem_cons.mp hc with rfl | hc
    · rfl
    · rcases List.mem_cons.mp hc with rfl | hc
      · rfl
      · exact (spells_toDigits _).2 c hc
  have hlines : (String.ofList ('0' :: '0' :: Nat.toDigits 10 9223372036854775808)).toList.count
      '\n' ≤ 4294967294 := by
    rw [htext, List.count_eq_zero_of_not_mem hspells.lineFeed_notMem]
    exact Nat.zero_le _
  have htoken : Kind.integer.tokenAt .start ('0' :: '0' :: Nat.toDigits 10 9223372036854775808)
      = ⟨.integer, .bigInteger 9223372036854775808, 1, 0, 21⟩ := by decide +kernel
  obtain ⟨drained, hdrain, hgiven⟩ := Lexer.exists_drain_ofSource hlines
  have hreaches := Lexer.Reaches.of_drain hdrain
  rw [hgiven, htext, itemsFrom_word hspells, htoken] at hreaches
  obtain ⟨digits, hlexeme, -, -, hholds, -⟩ :=
    hscanned _ _ _ hreaches _ List.mem_cons_self rfl
  obtain ⟨value, hvalue, -, htokenize⟩ := hshown 9223372036854775808
  exact ⟨_, drained.lexer, htext, hreaches, ⟨digits, hlexeme, hholds⟩, value, hvalue, _,
    htokenize, rfl⟩

end ExprScan
