/-! # Faults

  A fault is a misuse or an exhaustion that ends a run: a cursor that names
  no place in the text, or a counter that has no room left. Illegal
  characters are not faults. They are ordinary findings of a scan and are
  reported in place.
-/

namespace ExprScan

/-- What can end a run. -/
inductive Fault where
  /-- An offset lies past the end of the text. -/
  | outOfBounds
  /-- A range ends before it starts. -/
  | reversed
  /-- An offset lies strictly inside a character. -/
  | insideCharacter
  /-- The line number would leave 32 bits. -/
  | lineOverflow
  /-- A caret would stand beyond the widest column that can be padded to. -/
  | columnTooWide
  /-- The number of reported errors would leave 31 bits. -/
  | tooManyErrors
deriving DecidableEq, Repr

/-- The fault in words. -/
def Fault.describe : Fault → String
  | .outOfBounds => "offset past the end of the text"
  | .reversed => "range ends before it starts"
  | .insideCharacter => "offset inside a character"
  | .lineOverflow => "line number out of range"
  | .columnTooWide => "caret column out of range"
  | .tooManyErrors => "error count out of range"

end ExprScan
