import ExprScan.Position
import ExprScan.Text.Quoted
import ExprScan.Text.Record

/-! # Illegal characters

  A character at which no token can start is reported where it stands, and
  scanning goes on behind it. Two such characters are often slips for
  something legal, and their reports carry a tip.
-/

namespace ExprScan

/-- A report of a character that starts no token. -/
structure Illegal where
  character : Char
  position : Position
deriving DecidableEq, Repr

/-- A position in full. -/
def Position.debug (pos : Position) : String :=
  Text.record "Position"
    [("line", toString pos.line.toNat), ("offset", toString pos.offset)]

namespace Illegal

/-- The name of this sort of report. -/
def name : String := "IllegalCharacter"

/-- What is said of a character that starts no token. -/
def messageOf (character : Char) : String := "illegal character " ++ Text.quotedChar character

/-- The report without its place. -/
def message (illegal : Illegal) : String := messageOf illegal.character

/-- The report on a line of its own. -/
def display (illegal : Illegal) : String :=
  illegal.message ++ " at line " ++ toString illegal.position.line.toNat

/-- What the writer may have meant. -/
def tip? (illegal : Illegal) : Option String :=
  if illegal.character = '!' then some "`!` only appears in `!=`, did you mean `~`?"
  else if illegal.character = '.' then
    some "A float needs a digit on at least one side of the point"
  else none

/-- The report in full. -/
def debug (illegal : Illegal) : String :=
  Text.record "Error"
    [("internal_error", Text.record name [("character", Text.quotedChar illegal.character)]),
     ("position", illegal.position.debug)]

end Illegal

end ExprScan
