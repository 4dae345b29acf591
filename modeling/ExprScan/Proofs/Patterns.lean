import ExprScan.Proofs.Munch

/-! # Patterns

  Numbers and comments are laid down by patterns: one character of a class, a run
  of them, a pattern behind another one, and a pattern or else another one. A
  pattern may match the start of a text in many ways, and the first match that is
  tried counts: a run takes all the characters that it can before it gives one
  back, and of two alternatives the second is tried only where the first fails.

  What is tried are all the matches (`mem_rests`), and the patterns match the texts
  that spell a token of their kind, and no others (`takes_float`).

  A scan does not try matches one after another. It passes a number or a comment
  once and gives nothing back, and still it cuts off just what the patterns do
  (`cut_eq_byRules`). For the digits before a point this holds since a point never
  stands where a digit is given back (`flatMap_runs`). The order of the
  alternatives for a float does not show either, as both of them end behind the
  last digit after the point (`rest?_float_swapped`).
-/

namespace ExprScan

/-- A pattern for the start of a text. -/
inductive Pattern where
  /-- One character of a class. -/
  | one (member : Char → Bool)
  /-- Characters of a class, as many as there are. -/
  | many (member : Char → Bool)
  /-- A match of the first pattern, and one of the second behind it. -/
  | followedBy (first second : Pattern)
  /-- A match of the first pattern, or else one of the second. -/
  | orElse (first second : Pattern)

namespace Pattern

/-! ### Matches -/

/-- What the runs of a class at the start of a text leave of it, that of the longest run first. -/
def runs (member : Char → Bool) : List Char → List (List Char)
  | [] => [[]]
  | c :: more => if member c then runs member more ++ [c :: more] else [c :: more]

/-- What the matches at the start of a text leave of it, in the order in which they are tried. -/
def rests : Pattern → List Char → List (List Char)
  | one _, [] => []
  | one member, c :: more => if member c then [more] else []
  | many member, text => runs member text
  | followedBy first second, text => (first.rests text).flatMap second.rests
  | orElse first second, text => first.rests text ++ second.rests text

section rests

variable {member : Char → Bool} {c : Char} {more : List Char}

theorem rests_one_of_pos (h : member c = true) : (one member).rests (c :: more) = [more] :=
  if_pos h

theorem rests_one_of_neg (h : ¬ member c = true) : (one member).rests (c :: more) = [] :=
  if_neg h

theorem rests_followedBy (first second : Pattern) (text : List Char) :
    (followedBy first second).rests text = (first.rests text).flatMap second.rests := rfl

theorem rests_orElse (first second : Pattern) (text : List Char) :
    (orElse first second).rests text = first.rests text ++ second.rests text := rfl

theorem rests_one_followedBy_of_pos (second : Pattern) (h : member c = true) :
    (followedBy (one member) second).rests (c :: more) = second.rests more := by
  rw [rests_followedBy, rests_one_of_pos h, List.flatMap_singleton]

theorem rests_one_followedBy_of_neg (second : Pattern) (h : ¬ member c = true) :
    (followedBy (one member) second).rests (c :: more) = [] := by
  rw [rests_followedBy, rests_one_of_neg h, List.flatMap_nil]

end rests

/-- What the match that counts leaves of a text. -/
def rest? (pattern : Pattern) (text : List Char) : Option (List Char) :=
  (pattern.rests text).head?

/-- The second alternative counts only where the first one fails. -/
theorem rest?_orElse (first second : Pattern) (text : List Char) :
    (orElse first second).rest? text = (first.rest? text).or (second.rest? text) := by
  unfold rest?
  rw [rests_orElse, List.head?_append]

/-- The piece that a pattern for some kind of token cuts off a text. -/
def piece? (kind : Kind) (pattern : Pattern) (text : List Char) : Option Piece :=
  (pattern.rest? text).map fun rest =>
    ⟨.token kind, text.take (text.length - rest.length), rest⟩

/-- A text is one that the pattern matches from its start to its end. -/
def Takes : Pattern → List Char → Prop
  | one member, taken => ∃ c, taken = [c] ∧ member c = true
  | many member, taken => ∀ c ∈ taken, member c = true
  | followedBy first second, taken =>
    ∃ start behind, taken = start ++ behind ∧ first.Takes start ∧ second.Takes behind
  | orElse first second, taken => first.Takes taken ∨ second.Takes taken

/-! ### The patterns of tokens -/

/-- At least one character of a class. -/
def atLeastOne (member : Char → Bool) : Pattern :=
  followedBy (one member) (many member)

/-- A point. -/
def point : Pattern := one (· == '.')

/-- Digits, a point and at least one digit. -/
def withFraction : Pattern :=
  followedBy (many Char.isDigit) (followedBy point (atLeastOne Char.isDigit))

/-- At least one digit, a point and digits. -/
def withWhole : Pattern :=
  followedBy (atLeastOne Char.isDigit) (followedBy point (many Char.isDigit))

/-- A point with digits on either side of it, and with at least one of them. -/
def float : Pattern := orElse withFraction withWhole

/-- At least one digit. -/
def integer : Pattern := atLeastOne Char.isDigit

/-- A number sign and what may stand in a comment behind it. -/
def comment : Pattern := followedBy (one (· == '#')) (many isCommentChar)

/-- The kinds of numbers and their patterns, in the order in which they are tried. -/
def numberRules : List (Kind × Pattern) := [(.float, float), (.integer, integer)]

/-! ### All matches -/

theorem mem_runs {member : Char → Bool} {text rest : List Char} :
    rest ∈ runs member text ↔ ∃ taken, text = taken ++ rest ∧ ∀ c ∈ taken, member c = true := by
  induction text with
  | nil =>
    constructor
    · intro hrest
      rw [List.mem_singleton.mp hrest]
      exact ⟨[], rfl, fun c hc => absurd hc List.not_mem_nil⟩
    · rintro ⟨taken, htext, -⟩
      rw [(List.append_eq_nil_iff.mp htext.symm).2]
      exact List.mem_singleton_self _
  | cons c more ih =>
    have hnone : ∃ taken, c :: more = taken ++ c :: more ∧ ∀ d ∈ taken, member d = true :=
      ⟨[], rfl, fun d hd => absurd hd List.not_mem_nil⟩
    unfold runs
    by_cases hc : member c = true
    · -- Either the run goes on behind the character, or it takes nothing at all.
      rw [if_pos hc, List.mem_append, ih, List.mem_singleton]
      constructor
      · rintro (⟨taken, rfl, htaken⟩ | rfl)
        · exact ⟨c :: taken, rfl, List.forall_mem_cons.mpr ⟨hc, htaken⟩⟩
        · exact hnone
      · rintro ⟨taken, htext, htaken⟩
        cases taken with
        | nil => exact Or.inr htext.symm
        | cons d taken =>
          obtain ⟨-, rfl⟩ := List.cons.inj htext
          exact Or.inl ⟨taken, rfl, (List.forall_mem_cons.mp htaken).2⟩
    · rw [if_neg hc, List.mem_singleton]
      constructor
      · rintro rfl
        exact hnone
      · rintro ⟨taken, htext, htaken⟩
        cases taken with
        | nil => exact htext.symm
        | cons d taken =>
          obtain ⟨rfl, -⟩ := List.cons.inj htext
          exact absurd (htaken c List.mem_cons_self) hc

/-- What is tried are all the matches at the start of a text. -/
theorem mem_rests {pattern : Pattern} {text rest : List Char} :
    rest ∈ pattern.rests text ↔ ∃ taken, text = taken ++ rest ∧ pattern.Takes taken := by
  induction pattern generalizing text rest with
  | one member =>
    cases text with
    | nil =>
      constructor
      · intro hrest
        exact absurd hrest List.not_mem_nil
      · rintro ⟨taken, htext, c, rfl, -⟩
        exact absurd htext (List.cons_ne_nil _ _).symm
    | cons c more =>
      by_cases hc : member c = true
      · rw [rests_one_of_pos hc, List.mem_singleton]
        constructor
        · rintro rfl
          exact ⟨[c], rfl, c, rfl, hc⟩
        · rintro ⟨taken, htext, d, rfl, -⟩
          exact (List.cons.inj htext).2.symm
      · rw [rests_one_of_neg hc]
        constructor
        · intro hrest
          exact absurd hrest List.not_mem_nil
        · rintro ⟨taken, htext, d, rfl, hd⟩
          obtain ⟨rfl, -⟩ := List.cons.inj htext
          exact absurd hd hc
  | many member => exact mem_runs
  | followedBy first second ihfirst ihsecond =>
    -- The text is split where the first match ends and again where the second one does.
    rw [rests_followedBy, List.mem_flatMap]
    constructor
    · rintro ⟨between, hbetween, hrest⟩
      obtain ⟨start, rfl, hstart⟩ := ihfirst.mp hbetween
      obtain ⟨behind, rfl, hbehind⟩ := ihsecond.mp hrest
      exact ⟨start ++ behind, (List.append_assoc _ _ _).symm, start, behind, rfl, hstart, hbehind⟩
    · rintro ⟨taken, rfl, start, behind, rfl, hstart, hbehind⟩
      refine ⟨behind ++ rest, ihfirst.mpr ⟨start, List.append_assoc _ _ _, hstart⟩, ?_⟩
      exact ihsecond.mpr ⟨behind, rfl, hbehind⟩
  | orElse first second ihfirst ihsecond =>
    rw [rests_orElse, List.mem_append, ihfirst, ihsecond]
    constructor
    · rintro (⟨taken, htext, htaken⟩ | ⟨taken, htext, htaken⟩)
      · exact ⟨taken, htext, Or.inl htaken⟩
      · exact ⟨taken, htext, Or.inr htaken⟩
    · rintro ⟨taken, htext, htaken | htaken⟩
      · exact Or.inl ⟨taken, htext, htaken⟩
      · exact Or.inr ⟨taken, htext, htaken⟩

theorem takes_atLeastOne {member : Char → Bool} {taken : List Char} :
    (atLeastOne member).Takes taken ↔ taken ≠ [] ∧ ∀ c ∈ taken, member c = true := by
  constructor
  · rintro ⟨start, behind, rfl, ⟨c, rfl, hc⟩, hbehind⟩
    exact ⟨List.cons_ne_nil _ _, List.forall_mem_cons.mpr ⟨hc, hbehind⟩⟩
  · rintro ⟨hne, htaken⟩
    obtain ⟨c, behind, rfl⟩ := List.exists_cons_of_ne_nil hne
    obtain ⟨hc, hbehind⟩ := List.forall_mem_cons.mp htaken
    exact ⟨[c], behind, rfl, ⟨c, rfl, hc⟩, hbehind⟩

theorem takes_point {taken : List Char} : point.Takes taken ↔ taken = ['.'] := by
  constructor
  · rintro ⟨c, rfl, hc⟩
    rw [beq_iff_eq.mp hc]
  · rintro rfl
    exact ⟨'.', rfl, rfl⟩

/-- The pattern of integers matches the texts that spell one. -/
theorem takes_integer {taken : List Char} : integer.Takes taken ↔ Kind.integer.Spells taken :=
  takes_atLeastOne

/-- The pattern of floats matches the texts that spell one. -/
theorem takes_float {taken : List Char} : float.Takes taken ↔ Kind.float.Spells taken := by
  constructor
  · rintro (⟨whole, -, rfl, hwhole, mark, fraction, rfl, hmark, hfraction⟩ |
      ⟨whole, -, rfl, hwhole, mark, fraction, rfl, hmark, hfraction⟩)
    · obtain ⟨hne, hfraction⟩ := takes_atLeastOne.mp hfraction
      rw [takes_point.mp hmark]
      exact ⟨whole, fraction, rfl, hwhole, hfraction, Or.inr hne⟩
    · obtain ⟨hne, hwhole⟩ := takes_atLeastOne.mp hwhole
      rw [takes_point.mp hmark]
      exact ⟨whole, fraction, rfl, hwhole, hfraction, Or.inl hne⟩
  · rintro ⟨whole, fraction, rfl, hwhole, hfraction, hne | hne⟩
    · exact Or.inr ⟨whole, _, rfl, takes_atLeastOne.mpr ⟨hne, hwhole⟩, ['.'], fraction, rfl,
        takes_point.mpr rfl, hfraction⟩
    · exact Or.inl ⟨whole, _, rfl, hwhole, ['.'], fraction, rfl, takes_point.mpr rfl,
        takes_atLeastOne.mpr ⟨hne, hfraction⟩⟩

/-- The pattern of comments matches the texts that spell one. -/
theorem takes_comment {taken : List Char} : comment.Takes taken ↔ Kind.comment.Spells taken := by
  constructor
  · rintro ⟨start, behind, rfl, ⟨c, rfl, hc⟩, hbehind⟩
    rw [beq_iff_eq.mp hc]
    exact ⟨behind, rfl, hbehind⟩
  · rintro ⟨body, rfl, hbody⟩
    exact ⟨['#'], body, rfl, ⟨'#', rfl, rfl⟩, hbody⟩

/-! ### Runs -/

/-- The longest run is tried first. -/
theorem head?_runs (member : Char → Bool) (text : List Char) :
    (runs member text).head? = some (text.dropWhile member) := by
  induction text with
  | nil => rfl
  | cons c more ih =>
    unfold runs
    by_cases hc : member c = true
    · rw [if_pos hc, List.head?_append, ih, List.dropWhile_cons_of_pos hc]
      rfl
    · rw [if_neg hc, List.dropWhile_cons_of_neg hc]
      rfl

/-- Where nothing matches at a character of the class, a run need not give one back. -/
theorem flatMap_runs {member : Char → Bool} {behind : List Char → List (List Char)}
    (h : ∀ c more, member c = true → behind (c :: more) = []) (text : List Char) :
    (runs member text).flatMap behind = behind (text.dropWhile member) := by
  induction text with
  | nil => exact List.flatMap_singleton _ _
  | cons c more ih =>
    unfold runs
    by_cases hc : member c = true
    · rw [if_pos hc, List.flatMap_append, ih, List.flatMap_singleton, h c more hc, List.append_nil,
        List.dropWhile_cons_of_pos hc]
    · rw [if_neg hc, List.flatMap_singleton, List.dropWhile_cons_of_neg hc]

/-- Of the runs with at least one character, the longest one counts. -/
theorem rest?_atLeastOne (member : Char → Bool) (text : List Char) :
    (atLeastOne member).rest? text
      = if text.takeWhile member = [] then none else some (text.dropWhile member) := by
  unfold rest? atLeastOne
  cases text with
  | nil => rfl
  | cons c more =>
    by_cases hc : member c = true
    · rw [rests_one_followedBy_of_pos _ hc, List.takeWhile_cons_of_pos hc,
        if_neg (List.cons_ne_nil _ _), List.dropWhile_cons_of_pos hc]
      exact head?_runs member more
    · rw [rests_one_followedBy_of_neg _ hc, List.takeWhile_cons_of_neg hc, if_pos rfl]
      rfl

/-! ### Floats -/

section point

variable (behind : Pattern)

/-- Nothing that asks for a point matches at a digit. -/
theorem rests_point_of_isDigit {c : Char} (more : List Char) (hc : c.isDigit = true) :
    (followedBy point behind).rests (c :: more) = [] := by
  apply rests_one_followedBy_of_neg
  rw [beq_iff_eq]
  rintro rfl
  exact absurd hc (by decide)

theorem rests_point (after : List Char) :
    (followedBy point behind).rests ('.' :: after) = behind.rests after :=
  rests_one_followedBy_of_pos behind rfl

/-- All digits ahead of a point are passed. -/
theorem rests_many_point (text : List Char) :
    (followedBy (many Char.isDigit) (followedBy point behind)).rests text
      = (followedBy point behind).rests (text.dropWhile Char.isDigit) :=
  flatMap_runs (fun _ more hc => rests_point_of_isDigit behind more hc) text

/-- At least one digit is passed ahead of a point, and then all of them are. -/
theorem rests_atLeastOne_point (text : List Char) :
    (followedBy (atLeastOne Char.isDigit) (followedBy point behind)).rests text
      = if text.takeWhile Char.isDigit = [] then []
        else (followedBy point behind).rests (text.dropWhile Char.isDigit) := by
  cases text with
  | nil => rfl
  | cons c more =>
    by_cases hc : c.isDigit = true
    · have hrests : (atLeastOne Char.isDigit).rests (c :: more) = runs Char.isDigit more :=
        rests_one_followedBy_of_pos _ hc
      rw [List.takeWhile_cons_of_pos hc, if_neg (List.cons_ne_nil _ _),
        List.dropWhile_cons_of_pos hc, ← rests_many_point, rests_followedBy, hrests]
      rfl
    · have hrests : (atLeastOne Char.isDigit).rests (c :: more) = [] :=
        rests_one_followedBy_of_neg _ hc
      rw [List.takeWhile_cons_of_neg hc, if_pos rfl, rests_followedBy, hrests, List.flatMap_nil]

end point

section alternatives

variable {text after : List Char}

theorem rest?_withFraction_of_point (h : text.dropWhile Char.isDigit = '.' :: after) :
    withFraction.rest? text
      = if after.takeWhile Char.isDigit = [] then none
        else some (after.dropWhile Char.isDigit) := by
  have hrests : withFraction.rests text = (atLeastOne Char.isDigit).rests after := by
    unfold withFraction
    rw [rests_many_point, h, rests_point]
  rw [← rest?_atLeastOne]
  unfold rest?
  rw [hrests]

theorem rest?_withWhole_of_point (h : text.dropWhile Char.isDigit = '.' :: after) :
    withWhole.rest? text
      = if text.takeWhile Char.isDigit = [] then none
        else some (after.dropWhile Char.isDigit) := by
  unfold rest? withWhole
  rw [rests_atLeastOne_point, h, rests_point]
  by_cases hwhole : text.takeWhile Char.isDigit = []
  · rw [if_pos hwhole, if_pos hwhole]
    rfl
  · rw [if_neg hwhole, if_neg hwhole]
    exact head?_runs Char.isDigit after

/-- Without a point behind the digits neither of the alternatives matches. -/
theorem rest?_of_no_point (h : ∀ after, text.dropWhile Char.isDigit ≠ '.' :: after) :
    withFraction.rest? text = none ∧ withWhole.rest? text = none := by
  have hpoint : ∀ behind, (followedBy point behind).rests (text.dropWhile Char.isDigit) = [] := by
    intro behind
    cases hdrop : text.dropWhile Char.isDigit with
    | nil => rfl
    | cons c more =>
      apply rests_one_followedBy_of_neg
      rw [beq_iff_eq]
      rintro rfl
      exact h more hdrop
  unfold rest? withFraction withWhole
  rw [rests_many_point, rests_atLeastOne_point, hpoint, hpoint, ite_self]
  exact ⟨rfl, rfl⟩

theorem rest?_float_of_point (h : text.dropWhile Char.isDigit = '.' :: after) :
    float.rest? text
      = if text.takeWhile Char.isDigit = [] ∧ after.takeWhile Char.isDigit = [] then none
        else some (after.dropWhile Char.isDigit) := by
  unfold float
  rw [rest?_orElse, rest?_withFraction_of_point h, rest?_withWhole_of_point h]
  -- The first alternative asks for a digit behind the point, the second one for a digit ahead.
  by_cases hfraction : after.takeWhile Char.isDigit = []
  · by_cases hwhole : text.takeWhile Char.isDigit = []
    · simp [hfraction, hwhole]
    · simp [hfraction, hwhole]
  · simp [hfraction]

theorem rest?_float_of_no_point (h : ∀ after, text.dropWhile Char.isDigit ≠ '.' :: after) :
    float.rest? text = none := by
  obtain ⟨hfraction, hwhole⟩ := rest?_of_no_point h
  unfold float
  rw [rest?_orElse, hfraction, hwhole]
  rfl

/-- The alternatives for a float may be tried in the other order as well. -/
theorem rest?_float_swapped (text : List Char) :
    (orElse withWhole withFraction).rest? text = float.rest? text := by
  unfold float
  rw [rest?_orElse, rest?_orElse]
  by_cases hpoint : ∃ after, text.dropWhile Char.isDigit = '.' :: after
  · obtain ⟨after, hafter⟩ := hpoint
    rw [rest?_withFraction_of_point hafter, rest?_withWhole_of_point hafter]
    -- If both of them match, they leave the same.
    split <;> split <;> rfl
  · obtain ⟨hfraction, hwhole⟩ := rest?_of_no_point fun after hafter => hpoint ⟨after, hafter⟩
    rw [hfraction, hwhole]

end alternatives

end Pattern

/-! ### Pieces -/

namespace Piece

open Pattern

/-- What is left of a text tells what is cut off. -/
theorem piece?_eq {kind : Kind} {pattern : Pattern} {piece : Piece} {text : List Char}
    (hrest : pattern.rest? text = some piece.rest) (hcategory : piece.category = .token kind)
    (htext : piece.text ++ piece.rest = text) : pattern.piece? kind text = some piece := by
  have htake : text.take (text.length - piece.rest.length) = piece.text := by
    rw [← htext, List.length_append, Nat.add_sub_cancel, List.take_left]
  unfold Pattern.piece?
  rw [hrest, Option.map_some, htake, ← hcategory]

theorem piece?_eq_none {kind : Kind} {pattern : Pattern} {text : List Char}
    (hrest : pattern.rest? text = none) : pattern.piece? kind text = none := by
  unfold Pattern.piece?
  rw [hrest, Option.map_none]

/-- A float is what the match of its pattern cuts off. -/
theorem float?_eq (text : List Char) : float? text = Pattern.float.piece? .float text := by
  symm
  by_cases hpoint : ∃ after, text.dropWhile Char.isDigit = '.' :: after
  · obtain ⟨after, hafter⟩ := hpoint
    have hrest := rest?_float_of_point hafter
    by_cases hneither : text.takeWhile Char.isDigit = [] ∧ after.takeWhile Char.isDigit = []
    · rw [if_pos hneither] at hrest
      simp only [float?, hafter, if_pos hneither]
      exact piece?_eq_none hrest
    · rw [if_neg hneither] at hrest
      have hfloat : float? text = some ⟨.token .float,
          text.takeWhile Char.isDigit ++ '.' :: after.takeWhile Char.isDigit,
          after.dropWhile Char.isDigit⟩ := by
        simp only [float?, hafter, if_neg hneither]
      rw [hfloat]
      exact piece?_eq hrest rfl (float?_text_append_rest hfloat)
  · have hnone : ∀ after, text.dropWhile Char.isDigit ≠ '.' :: after :=
      fun after hafter => hpoint ⟨after, hafter⟩
    have hfloat : float? text = none := by
      unfold float?
      split
      · next after hafter => exact absurd hafter (hnone after)
      · rfl
    rw [hfloat]
    exact piece?_eq_none (rest?_float_of_no_point hnone)

section cons

variable (c : Char) (more : List Char)

/-- An integer is a run of digits. -/
theorem piece?_integer : Pattern.integer.piece? .integer (c :: more)
    = if c.isDigit then some (run (.token .integer) Char.isDigit (c :: more)) else none := by
  have hrest := rest?_atLeastOne Char.isDigit (c :: more)
  by_cases hc : c.isDigit = true
  · rw [List.takeWhile_cons_of_pos hc, if_neg (List.cons_ne_nil _ _)] at hrest
    rw [if_pos hc]
    exact piece?_eq hrest rfl (run_text_append_rest _ _ _)
  · rw [List.takeWhile_cons_of_neg hc, if_pos rfl] at hrest
    rw [if_neg hc]
    exact piece?_eq_none hrest

/-- A comment is a run of what comments may hold, the number sign included. -/
theorem piece?_comment : Pattern.comment.piece? .comment (c :: more)
    = if c = '#' then some (run (.token .comment) isCommentChar (c :: more)) else none := by
  by_cases hc : c = '#'
  · have hsign : (c == '#') = true := beq_iff_eq.mpr hc
    have hmark : isCommentChar c = true := by
      rw [hc]
      decide
    have hrests : Pattern.comment.rests (c :: more) = runs isCommentChar more :=
      rests_one_followedBy_of_pos _ hsign
    rw [if_pos hc]
    apply piece?_eq _ rfl (run_text_append_rest _ _ _)
    show (Pattern.comment.rests (c :: more)).head? = some ((c :: more).dropWhile isCommentChar)
    rw [hrests, List.dropWhile_cons_of_pos hmark]
    exact head?_runs isCommentChar more
  · have hsign : ¬ (c == '#') = true := by rwa [beq_iff_eq]
    have hrests : Pattern.comment.rests (c :: more) = [] := rests_one_followedBy_of_neg _ hsign
    rw [if_neg hc]
    apply piece?_eq_none
    unfold rest?
    rw [hrests]
    rfl

end cons

/-- The first piece of a text that starts with a given character, by trying what it may be in
    order: blanks, line breaks, the patterns of numbers, the table of symbols, the pattern of
    comments. -/
def byRules (c : Char) (more : List Char) : Piece :=
  let text := c :: more
  if isBlank c then run .blank isBlank text
  else if isLineBreak c then run .lineBreaks isLineBreak text
  else match numberRules.findSome? fun rule => rule.2.piece? rule.1 text with
    | some piece => piece
    | none => match Symbol.table.find? fun s => s.spelling.isPrefixOf text with
      | some s => ⟨.token (.symbol s), s.spelling, text.drop s.spelling.length⟩
      | none => match Pattern.comment.piece? .comment text with
        | some piece => piece
        | none => ⟨.illegal c, [c], more⟩

/-- **Pieces by rules**: for every text, the piece that is cut off it in one go is the one that
    the rules give, with the first match of each pattern. -/
theorem cut_eq_byRules (c : Char) (more : List Char) : cut c more = byRules c more := by
  unfold cut byRules
  simp only [numberRules, List.findSome?_cons, List.findSome?_nil, ← float?_eq, piece?_integer,
    piece?_comment]
  -- The questions come in the same order, and only the last two are put in other words.
  cases float? (c :: more) with
  | some piece => rfl
  | none =>
    by_cases hdigit : c.isDigit = true
    · simp only [if_pos hdigit]
    · by_cases hsign : c = '#'
      · simp only [if_neg hdigit, if_pos hsign]
        rfl
      · simp only [if_neg hdigit, if_neg hsign]
        rfl

end Piece

end ExprScan
