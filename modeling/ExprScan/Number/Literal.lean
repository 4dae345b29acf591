import ExprScan.Number.Binary64

/-! # Reading number literals

  A run of decimal digits writes a natural number, of any length. A literal
  with a point writes a ratio: all its digits, read as one number, over ten
  to the number of digits after the point. A side of the point without
  digits adds nothing.

  There are three readers. Two are for whole numbers, and both go over the
  digits from the left: one keeps to 64 bits and gives up where a digit takes
  the number out of them, and the other has no bound. The third is for
  literals with a point. A scan gives them nothing but digits with at most one
  point, so what else a number may be written with, such as a sign or an
  exponent, is refused here.
-/

namespace ExprScan

/-- The number that a character stands for as a decimal digit. -/
def digitOf (c : Char) : Nat := c.toNat - '0'.toNat

/-- The number that a run of decimal digits writes. -/
def naturalOf (digits : List Char) : Nat := Nat.ofDigitChars 10 digits 0

/-! ### Whole numbers -/

/-- A number in 64 bits, if they hold it. -/
def within64? (n : Int) : Option Int64 :=
  if -9223372036854775808 ≤ n ∧ n ≤ 9223372036854775807 then some (Int64.ofInt n) else none

/-- A number in 64 bits with one more digit. Multiplying by ten and adding the digit can each
    leave 64 bits. -/
def appendDigit? (n : Int64) (c : Char) : Option Int64 :=
  if c.isDigit then do
    let shifted ← within64? (n.toInt * 10)
    within64? (shifted.toInt + digitOf c)
  else none

/-- The number that a text writes, if it is written in digits and 64 bits hold it. -/
def readWithin64? (text : List Char) : Option Int64 :=
  if text = [] then none else text.foldlM appendDigit? 0

/-- The number that a text writes, if it is written in digits. -/
def readWhole? (text : List Char) : Option Int :=
  if text ≠ [] ∧ text.all Char.isDigit then some (naturalOf text) else none

/-! ### Numbers with a point -/

/-- The value that a text writes, if it is written in digits with at most one point among them. -/
def readDecimal? (text : List Char) : Option Binary64 :=
  let whole := text.takeWhile Char.isDigit
  let point := (text.dropWhile Char.isDigit).take 1
  let fraction := (text.dropWhile Char.isDigit).drop 1
  if (point = [] ∨ point = ['.']) ∧ fraction.all Char.isDigit ∧ (whole ≠ [] ∨ fraction ≠ []) then
    some (.ofRatio (naturalOf (whole ++ fraction)) (Nat.pow 10 fraction.length))
  else none

end ExprScan
