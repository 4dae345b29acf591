import ExprScan.Kind

/-! # The languages of tokens

  For each kind of token, the texts that are tokens of that kind, said
  without reference to how a source is scanned. Blanks and line breaks,
  which separate tokens, have languages of their own.

  - a symbol is exactly its spelling;
  - an integer is one or more decimal digits;
  - a float has one point and a digit on at least one side of it;
  - a comment runs from `#` and never crosses the end of a line.
-/

namespace ExprScan

/-! ### Characters -/

/-- The characters that separate tokens on a line. -/
def isBlank (c : Char) : Bool := c = ' ' || c = '\t' || c = '\r'

/-- The character that ends a line. -/
def isLineBreak (c : Char) : Bool := c = '\n'

/-- The characters that a comment may hold. -/
def isCommentChar (c : Char) : Bool := c != '\r' && c != '\n'

/-! ### Languages -/

/-- A text all of whose characters are decimal digits. -/
def AllDigits (text : List Char) : Prop := ∀ c ∈ text, c.isDigit = true

/-- A text of the form of a float. -/
def IsFloat (text : List Char) : Prop :=
  ∃ whole fraction, text = whole ++ '.' :: fraction ∧
    AllDigits whole ∧ AllDigits fraction ∧ (whole ≠ [] ∨ fraction ≠ [])

/-- A text of the form of a comment. -/
def IsComment (text : List Char) : Prop :=
  ∃ body, text = '#' :: body ∧ ∀ c ∈ body, isCommentChar c = true

/-- The texts that are tokens of a kind. -/
def Kind.Spells : Kind → List Char → Prop
  | symbol s, text => text = s.spelling
  | integer, text => text ≠ [] ∧ AllDigits text
  | float, text => IsFloat text
  | comment, text => IsComment text

end ExprScan
