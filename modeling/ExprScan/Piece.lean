import ExprScan.Lexeme

/-! # Cutting a text into pieces

  A text falls into pieces: runs of blanks, runs of line breaks, tokens, and
  single characters that start no token. What the first piece is depends
  only on the text itself, not on where in a source it stands.

  A float is looked for before an integer, since the digits before its point
  would otherwise be cut off as an integer of their own.

  Main statements: a piece and what follows it make up the text again
  (`text_append_rest`), no piece is empty (`text_ne_nil`), and so what
  follows is shorter (`length_rest_lt`).
-/

namespace ExprScan

/-- What a piece of text is. -/
inductive Category where
  /-- A run of blanks. -/
  | blank
  /-- A run of line breaks. -/
  | lineBreaks
  /-- A token of some kind. -/
  | token (kind : Kind)
  /-- A character that starts no token. -/
  | illegal (character : Char)
deriving DecidableEq, Repr

/-- The first piece of a text, and what follows it. -/
structure Piece where
  category : Category
  text : List Char
  rest : List Char
deriving DecidableEq, Repr

namespace Piece

/-! ### Cutting -/

/-- The longest run of characters of one class. -/
def run (category : Category) (member : Char → Bool) (text : List Char) : Piece :=
  ⟨category, text.takeWhile member, text.dropWhile member⟩

/-- The longest float that a text starts with. -/
def float? (text : List Char) : Option Piece :=
  match text.dropWhile Char.isDigit with
  | '.' :: after =>
    let whole := text.takeWhile Char.isDigit
    let fraction := after.takeWhile Char.isDigit
    if whole = [] ∧ fraction = [] then none
    else some ⟨.token .float, whole ++ '.' :: fraction, after.dropWhile Char.isDigit⟩
  | _ => none

/-- The first piece of a text that starts with a given character. -/
def cut (c : Char) (more : List Char) : Piece :=
  let text := c :: more
  if isBlank c then run .blank isBlank text
  else if isLineBreak c then run .lineBreaks isLineBreak text
  else match float? text with
    | some piece => piece
    | none =>
      -- No point follows a digit from here on, so a run of digits is whole.
      if c.isDigit then run (.token .integer) Char.isDigit text
      else match Symbol.leading? text with
        | some s => ⟨.token (.symbol s), s.spelling, text.drop s.spelling.length⟩
        | none =>
          -- `#` is a character that comments may hold, so the run includes it.
          if c = '#' then run (.token .comment) isCommentChar text
          else ⟨.illegal c, [c], more⟩

/-- The first piece of a text; none of an empty one. -/
def first? : List Char → Option Piece
  | [] => none
  | c :: more => some (cut c more)

/-! ### Pieces make up the text -/

theorem run_text_append_rest (category : Category) (member : Char → Bool) (text : List Char) :
    (run category member text).text ++ (run category member text).rest = text := by
  simp [run]

theorem run_text_ne_nil (category : Category) {member : Char → Bool} {c : Char}
    (more : List Char) (h : member c = true) : (run category member (c :: more)).text ≠ [] := by
  simp [run, h]

theorem float?_text_append_rest {text : List Char} {piece : Piece} (h : float? text = some piece) :
    piece.text ++ piece.rest = text := by
  simp only [float?] at h
  split at h
  · next after hafter =>
    split at h
    · simp at h
    · obtain rfl := Option.some.inj h
      have := List.takeWhile_append_dropWhile (p := Char.isDigit) (l := text)
      simp [hafter] at this
      simp [this]
  · simp at h

theorem float?_text_ne_nil {text : List Char} {piece : Piece} (h : float? text = some piece) :
    piece.text ≠ [] := by
  simp only [float?] at h
  split at h
  · split at h
    · simp at h
    · obtain rfl := Option.some.inj h
      simp
  · simp at h

theorem cut_text_append_rest (c : Char) (more : List Char) :
    (cut c more).text ++ (cut c more).rest = c :: more := by
  simp only [cut]
  split
  · exact run_text_append_rest ..
  split
  · exact run_text_append_rest ..
  split
  · next h => exact float?_text_append_rest h
  split
  · exact run_text_append_rest ..
  split
  · next s hs =>
    have := List.find?_some hs
    obtain ⟨tail, htail⟩ := List.isPrefixOf_iff_prefix.mp this
    simp [← htail]
  split
  · exact run_text_append_rest ..
  · rfl

theorem cut_text_ne_nil (c : Char) (more : List Char) : (cut c more).text ≠ [] := by
  simp only [cut]
  split
  · next h => exact run_text_ne_nil _ _ h
  split
  · next h => exact run_text_ne_nil _ _ h
  split
  · next h => exact float?_text_ne_nil h
  split
  · next h => exact run_text_ne_nil _ _ h
  split
  · next s _ => exact s.spelling_ne_nil
  split
  · next h => exact run_text_ne_nil _ _ (by subst h; decide)
  · simp

/-- A piece and what follows it make up the text. -/
theorem text_append_rest {text : List Char} {piece : Piece} (h : first? text = some piece) :
    piece.text ++ piece.rest = text := by
  cases text with
  | nil => simp [first?] at h
  | cons c more =>
    obtain rfl := Option.some.inj h
    exact cut_text_append_rest c more

/-- No piece is empty. -/
theorem text_ne_nil {text : List Char} {piece : Piece} (h : first? text = some piece) :
    piece.text ≠ [] := by
  cases text with
  | nil => simp [first?] at h
  | cons c more =>
    obtain rfl := Option.some.inj h
    exact cut_text_ne_nil c more

/-- What follows a piece is shorter than the text. -/
theorem length_rest_lt {text : List Char} {piece : Piece} (h : first? text = some piece) :
    piece.rest.length < text.length := by
  have hpos := List.length_pos_iff.mpr (text_ne_nil h)
  rw [← text_append_rest h, List.length_append]
  omega

end Piece

end ExprScan
