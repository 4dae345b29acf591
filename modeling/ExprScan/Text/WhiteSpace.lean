import ExprScan.Text.Ranges

/-! # White space

  The Unicode property White_Space. The scanner skips only some of these
  characters; the whole property is what is trimmed from the end of a line
  that is shown to the user.
-/

namespace ExprScan.Text

/-- The code points with the property White_Space. -/
def whiteSpace : Ranges :=
  ⟨[(0x9, 0xD), (0x20, 0x20), (0x85, 0x85), (0xA0, 0xA0), (0x1680, 0x1680), (0x2000, 0x200A),
    (0x2028, 0x2029), (0x202F, 0x202F), (0x205F, 0x205F), (0x3000, 0x3000)],
   by decide⟩

/-- Whether a character has the property White_Space. -/
def isWhiteSpace (c : Char) : Bool := whiteSpace.contains c.toNat

/-- A text without the white space at its end. -/
def trimEnd (text : List Char) : List Char :=
  (text.reverse.dropWhile isWhiteSpace).reverse

end ExprScan.Text
