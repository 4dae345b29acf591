import ExprScan.Proofs.Coverage

/-! # Stray characters

  Which characters a scan reports can be told from their surroundings, without
  following the scan (`IsStray`). Outside comments, a character is stray if no
  word starts with it, except that the `=` of `!=` and the digits of a float
  make a `!` and a point legal.

  Going from piece to piece, the scan keeps in step with the surroundings. The
  invariant (`Aligned`) says what may meet at a cursor: no open comment goes on
  behind it, no number goes on behind it, and a point that stands there belongs
  to no digits before it. What the last piece is settles most of it
  (`Aligned.step`); only an open comment is remembered over pieces.
-/

namespace ExprScan

/-! ### Surroundings -/

/-- Whether a character stands in a comment: at or before it is a `#`, and from
    there on no line ends. -/
def InComment (before : List Char) (c : Char) : Prop :=
  ∃ front body, before ++ [c] = front ++ '#' :: body ∧ ∀ d ∈ body, isCommentChar d = true

/-- Whether a text does not end in a digit. -/
def EndsInNoDigit (before : List Char) : Prop :=
  ∀ d, before.getLast? = some d → d.isDigit = false

/-- Whether a text ends in a point with digits behind it, or none. -/
def EndsInPoint (before : List Char) : Prop :=
  ∃ front digits, before = front ++ '.' :: digits ∧ AllDigits digits

/-- Whether a character is stray, by what stands before it and behind it.
    Outside comments, these are the characters that nothing starts with, a `!`
    that no `=` follows, and a point that has no digit behind it and none
    before it that is not part of a float already. -/
def IsStray (before : List Char) (c : Char) (behind : List Char) : Prop :=
  ¬ InComment before c ∧
    ((c.isDigit = false ∧ c ∉ [' ', '\t', '\r', '\n', '.', '!'] ∧
        ∀ s : Symbol, s.spelling ≠ [c]) ∨
      (c = '!' ∧ behind.head? ≠ some '=') ∨
      (c = '.' ∧ (∀ d, behind.head? = some d → d.isDigit = false) ∧
        (EndsInNoDigit before ∨ EndsInPoint before)))

/-- What is known of the text before the cursor of a scan, with the text
    behind it. -/
structure Aligned (before rest : List Char) : Prop where
  /-- A comment that is open ends at the cursor. -/
  comment : ∀ front body, before = front ++ '#' :: body → (∀ d ∈ body, isCommentChar d = true) →
    ∀ d, rest.head? = some d → isCommentChar d = false
  /-- No digit at the cursor goes on with a number. -/
  digit : ∀ d, rest.head? = some d → d.isDigit = true →
    EndsInNoDigit before ∧ before.getLast? ≠ some '.'
  /-- Digits before a point at the cursor are part of a float already. -/
  point : rest.head? = some '.' → EndsInNoDigit before ∨ EndsInPoint before

theorem aligned_start (rest : List Char) : Aligned [] rest := by
  refine ⟨?_, ?_, ?_⟩
  · intro front body h
    simp at h
  · intro d _ _
    simp [EndsInNoDigit]
  · intro _
    simp [EndsInNoDigit]

/-! ### Digits and points in pieces -/

theorem allDigits_singleton {d : Char} (hd : d.isDigit = true) : AllDigits [d] := by
  intro c hc
  rw [List.mem_singleton.mp hc]
  exact hd

theorem isWord_of_isDigit {d : Char} (hd : d.isDigit = true) : IsWord [d] :=
  ⟨.token .integer, by simp, allDigits_singleton hd⟩

theorem isWord_point_digit {d : Char} (hd : d.isDigit = true) : IsWord ['.', d] :=
  ⟨.token .float, [], [d], rfl, allDigits_nil, allDigits_singleton hd, by simp⟩

theorem isCommentChar_of_isDigit {d : Char} (hd : d.isDigit = true) : isCommentChar d = true := by
  have hblank := not_isBlank_of_isDigit hd
  have hbreak := not_isLineBreak_of_isDigit hd
  simp only [isBlank, isLineBreak, Bool.or_eq_false_iff, decide_eq_false_iff_not] at hblank hbreak
  simp [isCommentChar, hblank.2, hbreak]

theorem Symbol.not_isDigit_of_mem {s : Symbol} {c : Char} (h : c ∈ s.spelling) :
    c.isDigit = false ∧ c ≠ '.' := by
  have hall : s.spelling.all (fun c => !c.isDigit && c != '.') = true := by
    cases s <;> decide
  simpa using List.all_eq_true.mp hall c h

/-- A text ends in the last of the digits that it ends in. -/
theorem not_endsInNoDigit_append {before digits : List Char} (hdigits : AllDigits digits)
    (hne : digits ≠ []) : ¬ EndsInNoDigit (before ++ digits) := by
  intro h
  have hlast : (before ++ digits).getLast? = some (digits.getLast hne) := by
    rw [List.getLast?_append_of_ne_nil before hne, List.getLast?_eq_some_getLast hne]
  have hdigit := hdigits _ (List.getLast_mem hne)
  rw [h _ hlast] at hdigit
  exact absurd hdigit (by decide)

theorem EndsInPoint.last {before : List Char} (h : EndsInPoint before) :
    before.getLast? = some '.' ∨ ¬ EndsInNoDigit before := by
  obtain ⟨front, digits, rfl, hdigits⟩ := h
  by_cases hne : digits = []
  · subst hne
    exact Or.inl List.getLast?_concat
  · rw [List.append_cons]
    exact Or.inr (not_endsInNoDigit_append hdigits hne)

/-- Digits that a point stands before are all the digits at an end. -/
theorem EndsInPoint.of_append {before digits : List Char} (hdigits : AllDigits digits)
    (h : EndsInPoint (before ++ digits)) : EndsInPoint before := by
  obtain ⟨front, tail, hsplit, htail⟩ := h
  have hpoint : '.' ∉ digits := fun hmem => absurd (hdigits _ hmem) (by decide)
  rcases List.append_eq_append_iff.mp hsplit with ⟨middle, -, htext⟩ | ⟨middle, hbefore, hrest⟩
  · exact absurd (by simp [htext]) hpoint
  · cases middle with
    | nil =>
      obtain rfl : digits = '.' :: tail := hrest.symm
      exact absurd List.mem_cons_self hpoint
    | cons c middle =>
      obtain ⟨rfl, rfl⟩ := List.cons.inj hrest
      exact ⟨front, middle, hbefore, fun d hd => htail d (List.mem_append_left _ hd)⟩

/-- Digits and points stand in numbers and comments, or are stray points. -/
theorem Category.Labels.of_mem_number {category : Category} {text : List Char} {c : Char}
    (h : category.Labels text) (hmem : c ∈ text) (hc : c.isDigit = true ∨ c = '.') :
    AllDigits text ∨ IsFloat text ∨ IsComment text ∨ text = ['.'] := by
  have hblank : isBlank c = false := by
    rcases hc with hc | rfl
    · exact not_isBlank_of_isDigit hc
    · decide
  have hbreak : isLineBreak c = false := by
    rcases hc with hc | rfl
    · exact not_isLineBreak_of_isDigit hc
    · decide
  rcases h with hspells | ⟨d, -, rfl, hd⟩
  · match category, hspells with
    | .blank, h =>
      rw [h.2 c hmem] at hblank
      simp at hblank
    | .lineBreaks, h =>
      rw [h.2 c hmem] at hbreak
      simp at hbreak
    | .token .integer, h => exact Or.inl h.2
    | .token .float, h => exact Or.inr (Or.inl h)
    | .token .comment, h => exact Or.inr (Or.inr (Or.inl h))
    | .token (.symbol s), h =>
      rw [show text = s.spelling from h] at hmem
      obtain ⟨hdigit, hpoint⟩ := Symbol.not_isDigit_of_mem hmem
      rw [hdigit] at hc
      simp [hpoint] at hc
  · obtain rfl : c = d := List.mem_singleton.mp hmem
    rcases hc with hc | rfl
    · exact absurd (isWord_of_isDigit hc) hd
    · exact Or.inr (Or.inr (Or.inr rfl))

/-- Behind a digit or a point a piece would go on with a digit. -/
theorem Category.Labels.isWord_append_digit {category : Category} {text : List Char} {c d : Char}
    (h : category.Labels text) (hmem : c ∈ text) (hc : c.isDigit = true ∨ c = '.')
    (hd : d.isDigit = true) : IsWord (text ++ [d]) := by
  rcases h.of_mem_number hmem hc with hdigits | ⟨whole, fraction, rfl, hwhole, hfraction, -⟩ |
    ⟨body, rfl, hbody⟩ | rfl
  · exact ⟨.token .integer, by simp, hdigits.append (allDigits_singleton hd)⟩
  · exact ⟨.token .float, whole, fraction ++ [d], by simp, hwhole,
      hfraction.append (allDigits_singleton hd), by simp⟩
  · refine ⟨.token .comment, body ++ [d], rfl, ?_⟩
    intro e he
    rcases List.mem_append.mp he with he | he
    · exact hbody e he
    · rw [List.mem_singleton.mp he]
      exact isCommentChar_of_isDigit hd
  · exact isWord_point_digit hd

/-- A piece that does not go on with a point ends in no digit, or it is a float. -/
theorem Category.Labels.ends_before_point {category : Category} {text rest : List Char}
    (h : category.Labels text) (hsettled : Settled text rest) (hhead : rest.head? = some '.') :
    EndsInNoDigit text ∨ EndsInPoint text := by
  by_cases hlast : EndsInNoDigit text
  · exact Or.inl hlast
  right
  unfold EndsInNoDigit at hlast
  push Not at hlast
  obtain ⟨d, hd, hdigit⟩ := hlast
  have hmem : d ∈ text := List.mem_of_getLast? hd
  rcases h.of_mem_number hmem (Or.inl (by simpa using hdigit)) with
    hdigits | ⟨whole, fraction, htext, -, hfraction, -⟩ | hcomment | rfl
  · -- The digits would be taken in with the point.
    have hfloat : IsWord (text ++ ['.']) :=
      ⟨.token .float, text, [], rfl, hdigits, allDigits_nil, Or.inl h.ne_nil⟩
    exact absurd hfloat (hsettled '.' hhead)
  · exact ⟨whole, fraction, htext, hfraction⟩
  · exact absurd (hsettled.not_isCommentChar hcomment hhead) (by decide)
  · exact ⟨[], [], rfl, allDigits_nil⟩

/-- Only comments hold a `#`. -/
theorem Category.Labels.isComment_of_mem {category : Category} {text : List Char}
    (h : category.Labels text) (hmem : '#' ∈ text) : IsComment text := by
  rcases h with hspells | ⟨c, -, rfl, hc⟩
  · match category, hspells with
    | .blank, h => exact absurd (h.2 _ hmem) (by decide)
    | .lineBreaks, h => exact absurd (h.2 _ hmem) (by decide)
    | .token .integer, h => exact absurd (h.2 _ hmem) (by decide)
    | .token .float, h =>
      obtain ⟨whole, fraction, rfl, hwhole, hfraction, -⟩ := h
      rcases List.mem_append.mp hmem with hmem | hmem
      · exact absurd (hwhole _ hmem) (by decide)
      · rcases List.mem_cons.mp hmem with hpoint | hmem
        · exact absurd hpoint (by decide)
        · exact absurd (hfraction _ hmem) (by decide)
    | .token .comment, h => exact h
    | .token (.symbol s), h =>
      rw [show text = s.spelling from h] at hmem
      cases s <;> exact absurd hmem (by decide)
  · obtain rfl : '#' = c := List.mem_singleton.mp hmem
    exact ⟨[], rfl, by simp⟩

/-! ### Keeping aligned -/

/-- A scan stays aligned over a piece. -/
theorem Aligned.step {before text rest : List Char} {category : Category}
    (h : Aligned before (text ++ rest)) (hlabels : category.Labels text)
    (hsettled : Settled text rest) : Aligned (before ++ text) rest := by
  have hlast : (before ++ text).getLast? = text.getLast? :=
    List.getLast?_append_of_ne_nil before hlabels.ne_nil
  refine ⟨?_, ?_, ?_⟩
  · intro front body hsplit hbody d hd
    rcases List.append_eq_append_iff.mp hsplit with
      ⟨middle, hfront, htext⟩ | ⟨middle, hbefore, hrest⟩
    · -- The `#` stands in the piece, which is a comment then.
      have hcomment : IsComment text := hlabels.isComment_of_mem (by simp [htext])
      exact hsettled.not_isCommentChar hcomment hd
    · cases middle with
      | nil =>
        obtain rfl : text = '#' :: body := hrest.symm
        exact hsettled.not_isCommentChar (hlabels.isComment_of_mem List.mem_cons_self) hd
      | cons e middle =>
        -- The comment was open before the piece and would go on over it.
        obtain ⟨rfl, rfl⟩ := List.cons.inj hrest
        obtain ⟨c, more, rfl⟩ := List.exists_cons_of_ne_nil hlabels.ne_nil
        have hends := h.comment front middle hbefore
          (fun d hd => hbody d (List.mem_append_left _ hd)) c rfl
        rw [hbody c (by simp)] at hends
        exact absurd hends (by decide)
  · intro d hd hdigit
    have hnot : ∀ c ∈ text, ¬ (c.isDigit = true ∨ c = '.') := by
      intro c hc hnumber
      exact hsettled d hd (hlabels.isWord_append_digit hc hnumber hdigit)
    unfold EndsInNoDigit
    rw [hlast]
    constructor
    · intro c hc
      rw [Bool.eq_false_iff]
      intro hdigit
      exact hnot c (List.mem_of_getLast? hc) (Or.inl hdigit)
    · intro hc
      exact hnot '.' (List.mem_of_getLast? hc) (Or.inr rfl)
  · intro hhead
    rcases hlabels.ends_before_point hsettled hhead with hdigit | ⟨front, digits, rfl, hdigits⟩
    · left
      unfold EndsInNoDigit
      rw [hlast]
      exact hdigit
    · exact Or.inr ⟨before ++ front, digits, (List.append_assoc _ _ _).symm, hdigits⟩

/-! ### Stray characters in pieces -/

/-- Each character of a symbol but `!` is a symbol by itself. -/
theorem Symbol.exists_single_of_mem {s : Symbol} {c : Char} (h : c ∈ s.spelling) (hc : c ≠ '!') :
    ∃ t : Symbol, t.spelling = [c] := by
  have hall : s.spelling.all (fun c => c == '!' || table.any (·.spelling == [c])) = true := by
    cases s <;> decide
  have hone := List.all_eq_true.mp hall c h
  simp only [Bool.or_eq_true, beq_iff_eq, List.any_eq_true] at hone
  obtain ⟨t, -, ht⟩ := hone.resolve_left hc
  exact ⟨t, ht⟩

/-- In a symbol `=` stands behind `!`. -/
theorem Symbol.head?_of_exclamation {s : Symbol} {first second : List Char}
    (h : s.spelling = first ++ '!' :: second) : second.head? = some '=' := by
  rcases first with _ | ⟨a, _ | ⟨b, first⟩⟩
  · cases s <;> simp [spelling] at h
    simp [← h]
  · cases s <;> simp [spelling] at h
  · cases s <;> simp [spelling] at h

theorem not_isStray_of_isSeparator {before behind : List Char} {c : Char}
    (hc : isSeparator c = true) : ¬ IsStray before c behind := by
  rintro ⟨-, hstray⟩
  rcases eq_of_isSeparator hc with rfl | rfl | rfl | rfl <;> simp at hstray

theorem not_isStray_of_isDigit {before behind : List Char} {c : Char}
    (hc : c.isDigit = true) : ¬ IsStray before c behind := by
  rintro ⟨-, ⟨hnone, -⟩ | ⟨rfl, -⟩ | ⟨rfl, -⟩⟩
  · rw [hc] at hnone
    exact absurd hnone (by decide)
  · exact absurd hc (by decide)
  · exact absurd hc (by decide)

/-- In a float, a point with no digit behind it has digits of its own before it. -/
theorem not_isStray_of_isFloat {before whole fraction rest : List Char}
    (hwhole : AllDigits whole) (hfraction : AllDigits fraction)
    (hsome : whole ≠ [] ∨ fraction ≠ [])
    (haligned : Aligned before (whole ++ '.' :: fraction ++ rest)) :
    ¬ IsStray (before ++ whole) '.' (fraction ++ rest) := by
  rintro ⟨-, ⟨-, hother, -⟩ | ⟨hmark, -⟩ | ⟨-, hnone, hbefore⟩⟩
  · simp at hother
  · exact absurd hmark (by decide)
  cases fraction with
  | cons d fraction =>
    have hdigit := hfraction d List.mem_cons_self
    rw [hnone d rfl] at hdigit
    exact absurd hdigit (by decide)
  | nil =>
    -- The number starts with a digit at the cursor, so these are all its digits.
    obtain ⟨d, more, rfl⟩ := List.exists_cons_of_ne_nil (by simpa using hsome)
    obtain ⟨hdigit, hend⟩ := haligned.digit d rfl (hwhole d List.mem_cons_self)
    rcases hbefore with hlast | hlast
    · exact not_endsInNoDigit_append hwhole (List.cons_ne_nil d more) hlast
    · rcases (EndsInPoint.of_append hwhole hlast).last with hpoint | hnot
      · exact hend hpoint
      · exact hnot hdigit

/-- No character of a word is stray. -/
theorem Category.Spells.not_isStray {category : Category} {before first second rest : List Char}
    {c : Char} (h : category.Spells (first ++ c :: second))
    (haligned : Aligned before (first ++ c :: second ++ rest)) :
    ¬ IsStray (before ++ first) c (second ++ rest) := by
  have hmem : c ∈ first ++ c :: second := by simp
  match category, h with
  | .blank, h =>
    exact not_isStray_of_isSeparator (by simp [isSeparator, h.2 c hmem])
  | .lineBreaks, h =>
    exact not_isStray_of_isSeparator (by simp [isSeparator, h.2 c hmem])
  | .token .integer, h =>
    exact not_isStray_of_isDigit (h.2 c hmem)
  | .token .float, h =>
    obtain ⟨whole, fraction, htext, hwhole, hfraction, hsome⟩ := h
    by_cases hpoint : c = '.'
    · -- A float has one point only.
      subst hpoint
      obtain ⟨rfl, -, rfl⟩ := (List.append_cons_inj_of_notMem
        (fun hmem => absurd (hwhole _ hmem) (by decide))
        (fun hmem => absurd (hfraction _ hmem) (by decide))).mp htext.symm
      exact not_isStray_of_isFloat hwhole hfraction hsome haligned
    · have hdigit : c.isDigit = true := by
        rw [htext] at hmem
        rcases List.mem_append.mp hmem with hmem | hmem
        · exact hwhole c hmem
        · exact hfraction c ((List.mem_cons.mp hmem).resolve_left hpoint)
      exact not_isStray_of_isDigit hdigit
  | .token .comment, h =>
    -- From the `#` on, the comment comes up to the character.
    obtain ⟨body, htext, hbody⟩ := h
    rintro ⟨hcomment, -⟩
    apply hcomment
    cases first with
    | nil =>
      obtain ⟨rfl, -⟩ := List.cons.inj htext
      exact ⟨before, [], by simp, by simp⟩
    | cons d first =>
      obtain ⟨rfl, rfl⟩ := List.cons.inj htext
      refine ⟨before, first ++ [c], by simp, ?_⟩
      intro e he
      apply hbody e
      show e ∈ first ++ c :: second
      rw [List.append_cons]
      exact List.mem_append_left second he
  | .token (.symbol s), h =>
    have hspelling : s.spelling = first ++ c :: second := h.symm
    rw [← hspelling] at hmem
    rintro ⟨-, ⟨-, hother, hnone⟩ | ⟨rfl, hhead⟩ | ⟨rfl, -⟩⟩
    · obtain ⟨t, ht⟩ := Symbol.exists_single_of_mem hmem (by rintro rfl; simp at hother)
      exact hnone t ht
    · have hequals := Symbol.head?_of_exclamation hspelling
      rw [List.head?_append, hequals] at hhead
      exact hhead rfl
    · exact (Symbol.not_isDigit_of_mem hmem).2 rfl

/-- A single character that is no word is stray. -/
theorem isStray_of_not_isWord {before rest : List Char} {c : Char} (h : ¬ IsWord [c])
    (haligned : Aligned before (c :: rest)) (hsettled : Settled [c] rest) :
    IsStray before c rest := by
  constructor
  · rintro ⟨front, body, hsplit, hbody⟩
    rcases List.eq_nil_or_concat body with rfl | ⟨body, d, rfl⟩
    · obtain ⟨-, hmark⟩ := List.append_inj' hsplit rfl
      obtain rfl := List.singleton_inj.mp hmark
      exact h ⟨.token .comment, [], rfl, by simp⟩
    · rw [List.concat_eq_append, ← List.cons_append, ← List.append_assoc] at hsplit
      obtain ⟨hbefore, hlast⟩ := List.append_inj' hsplit rfl
      obtain rfl := List.singleton_inj.mp hlast
      -- The comment was open at the cursor already.
      have hends := haligned.comment front body hbefore (fun d hd => hbody d (by simp [hd])) c rfl
      rw [hbody c (by simp)] at hends
      exact absurd hends (by decide)
  by_cases hmark : c = '!'
  · subst hmark
    refine Or.inr (Or.inl ⟨rfl, ?_⟩)
    intro hhead
    exact hsettled '=' hhead ⟨.token (.symbol .notEqual), rfl⟩
  by_cases hpoint : c = '.'
  · subst hpoint
    refine Or.inr (Or.inr ⟨rfl, ?_, haligned.point rfl⟩)
    intro d hd
    rw [Bool.eq_false_iff]
    intro hdigit
    exact hsettled d hd (isWord_point_digit hdigit)
  refine Or.inl ⟨?_, ?_, ?_⟩
  · rw [Bool.eq_false_iff]
    intro hdigit
    exact h (isWord_of_isDigit hdigit)
  · intro hmem
    simp only [List.mem_cons, hmark, hpoint, List.not_mem_nil, or_false] at hmem
    exact h (isWord_of_isSeparator (by rcases hmem with rfl | rfl | rfl | rfl <;> decide))
  · intro s hs
    exact h ⟨.token (.symbol s), hs.symm⟩

/-! ### Reports -/

/-- The reports of a text that starts at a cursor. -/
def reportsFrom (pos : Position) (text : List Char) : List Illegal :=
  (itemsFrom pos text).filterMap Item.illegal?

theorem mem_reportsFrom {pos : Position} {text : List Char} {report : Illegal} :
    report ∈ reportsFrom pos text ↔ .illegal report ∈ itemsFrom pos text := by
  unfold reportsFrom
  rw [List.mem_filterMap]
  constructor
  · rintro ⟨item, hitem, hreport⟩
    cases item with
    | token t => simp [Item.illegal?] at hreport
    | illegal other =>
      obtain rfl := Option.some.inj hreport
      exact hitem
  · intro hitem
    exact ⟨_, hitem, rfl⟩

theorem mem_reportsFrom_append {pos : Position} {category : Category} {text rest : List Char}
    {report : Illegal} (hlabels : category.Labels text) (hsettled : Settled text rest) :
    report ∈ reportsFrom pos (text ++ rest)
      ↔ (category = .illegal report.character ∧ report.position = pos) ∨
        report ∈ reportsFrom (pos.after text) rest := by
  rw [mem_reportsFrom, mem_reportsFrom, itemsFrom_append hlabels hsettled, List.mem_append,
    Option.mem_toList, Category.item?_unit_eq_illegal]

/-- Reports stand behind the cursor. -/
theorem le_offset_of_mem_reportsFrom {pos : Position} {text : List Char} {report : Illegal}
    (h : report ∈ reportsFrom pos text) : pos.offset ≤ report.position.offset :=
  (bounds_of_mem_itemsFrom (mem_reportsFrom.mp h)).1

/-- No place is reported twice. -/
theorem pairwise_reportsFrom (pos : Position) (text : List Char) :
    (reportsFrom pos text).Pairwise fun first second =>
      first.position.offset < second.position.offset := by
  unfold reportsFrom
  rw [List.pairwise_filterMap]
  refine (pairwise_itemsFrom pos text).imp ?_
  intro first second hbehind report hreport other hother
  cases first with
  | token t => simp [Item.illegal?] at hreport
  | illegal here =>
    cases second with
    | token t => simp [Item.illegal?] at hother
    | illegal there =>
      obtain rfl := Option.some.inj hreport
      obtain rfl := Option.some.inj hother
      have hsize := here.character.utf8Size_pos
      simp only [Item.span] at hbehind
      omega

/-- A character of the first piece is reported exactly if it is stray. -/
theorem exists_report_here_iff {pos : Position} {before first second rest : List Char}
    {category : Category} {c : Char} (haligned : Aligned before (first ++ c :: second ++ rest))
    (hlabels : category.Labels (first ++ c :: second))
    (hsettled : Settled (first ++ c :: second) rest) :
    (∃ report ∈ reportsFrom pos (first ++ c :: second ++ rest),
        report.position.offset = pos.offset + Text.byteLength first)
      ↔ IsStray (before ++ first) c (second ++ rest) := by
  have hsingle : ∀ d, first ++ c :: second = [d] → first = [] ∧ c = d ∧ second = [] := by
    intro d hd
    cases first with
    | nil => simpa using hd
    | cons e first => simp at hd
  constructor
  · rintro ⟨report, hreport, hoffset⟩
    rcases (mem_reportsFrom_append hlabels hsettled).mp hreport with ⟨rfl, -⟩ | hlater
    · rcases hlabels with hnone | ⟨d, -, htext, hword⟩
      · exact hnone.elim
      · obtain ⟨rfl, rfl, rfl⟩ := hsingle d htext
        rw [List.append_nil]
        exact isStray_of_not_isWord hword haligned hsettled
    · -- The other reports stand behind the piece.
      have hbehind := le_offset_of_mem_reportsFrom hlater
      have hsize := c.utf8Size_pos
      rw [Position.offset_after, Text.byteLength_append, Text.byteLength_cons] at hbehind
      omega
  · intro hstray
    rcases hlabels with hspells | ⟨d, rfl, htext, hword⟩
    · exact absurd hstray (hspells.not_isStray haligned)
    · obtain ⟨rfl, rfl, rfl⟩ := hsingle d htext
      have hillegal : Category.Labels (.illegal c) ([] ++ [c]) := Or.inr ⟨c, rfl, rfl, hword⟩
      exact ⟨⟨c, pos⟩, (mem_reportsFrom_append hillegal hsettled).mpr (Or.inl ⟨rfl, rfl⟩), rfl⟩

/-- A character of a text is reported exactly if it is stray. -/
theorem exists_report_iff (pos : Position) {before text front behind : List Char} {c : Char}
    (haligned : Aligned before text) (htext : text = front ++ c :: behind) :
    (∃ report ∈ reportsFrom pos text,
        report.position.offset = pos.offset + Text.byteLength front)
      ↔ IsStray (before ++ front) c behind := by
  -- Over the pieces: the character is in the first one, or the first one is passed.
  induction text using Piece.text_induction generalizing pos before front with
  | nil => simp at htext
  | piece category text rest hlabels hsettled ih =>
    have hpassed : ∀ middle, front = text ++ middle → rest = middle ++ c :: behind →
        ((∃ report ∈ reportsFrom pos (text ++ rest),
            report.position.offset = pos.offset + Text.byteLength front)
          ↔ IsStray (before ++ front) c behind) := by
      rintro middle rfl hrest
      have hpos := hlabels.byteLength_pos
      have hbehind := ih (pos.after text) (haligned.step hlabels hsettled) hrest
      rw [Position.offset_after, List.append_assoc] at hbehind
      rw [← hbehind, Text.byteLength_append]
      constructor
      · rintro ⟨report, hreport, hoffset⟩
        rcases (mem_reportsFrom_append hlabels hsettled).mp hreport with ⟨-, hhere⟩ | hreport
        · rw [hhere] at hoffset
          omega
        · exact ⟨report, hreport, by omega⟩
      · rintro ⟨report, hreport, hoffset⟩
        exact ⟨report, (mem_reportsFrom_append hlabels hsettled).mpr (Or.inr hreport), by omega⟩
    rcases List.append_eq_append_iff.mp htext with ⟨middle, hfront, hrest⟩ | ⟨here, hhere, hrest⟩
    · exact hpassed middle hfront hrest
    · cases here with
      | nil => exact hpassed [] (by simpa using hhere.symm) hrest.symm
      | cons d second =>
        obtain ⟨rfl, rfl⟩ := List.cons.inj hrest
        subst hhere
        exact exists_report_here_iff haligned hlabels hsettled

/-- **Stray characters**: a scan reports exactly the characters that are stray
    by their surroundings, each as what it is and once. -/
theorem reported_iff_stray (source : String) (hlines : source.toList.count '\n' ≤ 4294967294) :
    ∃ tokens reports, tokenize source = .ok (tokens, reports) ∧
      (∀ before c behind, source.toList = before ++ c :: behind →
        ((∃ report ∈ reports, report.position.offset = Text.byteLength before)
          ↔ IsStray before c behind)) ∧
      (∀ report ∈ reports, ∃ before behind,
        source.toList = before ++ report.character :: behind ∧
          report.position.offset = Text.byteLength before) ∧
      reports.Pairwise fun first second => first.position.offset < second.position.offset := by
  obtain ⟨drained, hdrain, hitems⟩ := Lexer.exists_drain_ofSource hlines
  have hreports : drained.items.filterMap Item.illegal? = reportsFrom .start source.toList := by
    rw [hitems]
    rfl
  refine ⟨_, _, tokenize_eq hdrain, ?_, ?_, ?_⟩
  · intro before c behind hsource
    rw [hreports]
    have hreported := exists_report_iff .start (aligned_start source.toList) hsource
    rw [show Position.start.offset = 0 from rfl] at hreported
    simpa using hreported
  · intro report hreport
    rw [hreports, mem_reportsFrom] at hreport
    obtain ⟨category, before, word, behind, hsource, hlabels, hitem⟩ :=
      exists_of_mem_itemsFrom hreport
    obtain ⟨rfl, hposition⟩ := Category.item?_unit_eq_illegal.mp hitem
    refine ⟨before, behind, ?_, ?_⟩
    · rw [hsource, hlabels.eq_singleton]
      rfl
    · rw [hposition, Position.offset_after_start]
  · rw [hreports]
    exact pairwise_reportsFrom .start source.toList

/-- In `1.2.` the last point is stray, and it is reported. -/
theorem reported_iff_stray_point :
    (String.ofList ['1', '.', '2', '.']).toList.count '\n' ≤ 4294967294 ∧
    IsStray ['1', '.', '2'] '.' [] ∧
    ∃ tokens reports, tokenize (String.ofList ['1', '.', '2', '.']) = .ok (tokens, reports) ∧
      ∃ report ∈ reports, report.position.offset = 3 := by
  have hlines : (String.ofList ['1', '.', '2', '.']).toList.count '\n' ≤ 4294967294 := by
    rw [String.toList_ofList]
    decide
  have hstray : IsStray ['1', '.', '2'] '.' [] := by
    constructor
    · rintro ⟨front, body, hsplit, -⟩
      have hmem : '#' ∈ ['1', '.', '2'] ++ ['.'] := by simp [hsplit]
      exact absurd hmem (by decide)
    · refine Or.inr (Or.inr ⟨rfl, by simp, Or.inr ⟨['1'], ['2'], rfl, ?_⟩⟩)
      exact allDigits_singleton (by decide)
  obtain ⟨tokens, reports, htokenize, hreported, -⟩ :=
    reported_iff_stray (String.ofList ['1', '.', '2', '.']) hlines
  exact ⟨hlines, hstray, tokens, reports, htokenize,
    (hreported ['1', '.', '2'] '.' [] String.toList_ofList).mpr hstray⟩

end ExprScan
