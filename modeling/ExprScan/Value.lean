import ExprScan.Kind
import ExprScan.Number.Literal
import ExprScan.Number.Notation
import ExprScan.Text.Quoted
import ExprScan.Text.Record

/-! # Values of tokens

  A number token carries its value and a comment its text. Whole numbers
  are kept in 64 bits as long as they fit and exactly, in any size, beyond
  that. A symbol carries nothing.
-/

namespace ExprScan

/-- The value that a token carries. -/
inductive Value where
  /-- No value. -/
  | absent
  /-- A whole number within 64 bits. -/
  | integer (n : Int64)
  /-- A whole number of any size. -/
  | bigInteger (n : Int)
  /-- A floating-point number. -/
  | float (x : Binary64)
  /-- A raw text. -/
  | text (s : String)
deriving DecidableEq

namespace Value

/-! ### Values from source text -/

/-- The value of a whole number. The reader without a bound is asked only where the one in
    64 bits gives up, and the value is zero if both do. -/
def read (text : List Char) : Value :=
  match readWithin64? text with
  | some n => .integer n
  | none => .bigInteger ((readWhole? text).getD 0)

/-- The value of a number with a point, zero if the reader gives up. -/
def readPointed (text : List Char) : Value := .float ((readDecimal? text).getD ⟨0⟩)

end Value

/-- The value that a token of some kind takes from its text. -/
def Kind.valueOf : Kind → List Char → Value
  | symbol _, _ => .absent
  | integer, lexeme => .read lexeme
  | float, lexeme => .readPointed lexeme
  | comment, lexeme => .text (String.ofList lexeme)

namespace Value

/-! ### Comparing and showing -/

/-- Equality of values as numbers and texts: floating-point values compare as
    the numbers they stand for, so a NaN is unequal to itself. -/
def same : Value → Value → Bool
  | float x, float y => x.sameNumber y
  | v, w => v = w

/-- A value as text; nothing for no value. -/
def display : Value → String
  | absent => ""
  | integer n => toString n.toInt
  | bigInteger n => toString n
  | float x => x.text
  | text s => Text.quoted s

/-- A value in full. -/
def debug : Value → String
  | absent => "None"
  | integer n => Text.wrapped "Integer" (toString n.toInt)
  | bigInteger n => Text.wrapped "BigInteger" (toString n)
  | float x => Text.wrapped "Float" x.text
  | text s => Text.wrapped "Text" (Text.quoted s)

end Value

end ExprScan
