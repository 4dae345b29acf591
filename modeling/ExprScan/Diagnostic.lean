import ExprScan.Illegal
import ExprScan.Line
import ExprScan.Text.WhiteSpace

/-! # Diagnostics

  An illegal character is shown to the user with the line it stands on and a
  caret below it:

      Error: IllegalCharacter
      -> sums.txt
         |
      20 | 10 @ 20
         | ---^

  The line is shown without the spaces and tabs at its start and without any
  white space at its end. The caret counts characters from the first one
  shown, so it stands below the reported character.
-/

namespace ExprScan

/-- The parts of a diagnostic. -/
structure Diagnostic where
  /-- The name of the error, and the tip if there is one. -/
  heading : String
  /-- The source that the error is in. -/
  location : String
  /-- The margin above the source line. -/
  margin : String
  /-- The source line with its number. -/
  sourceLine : String
  /-- The margin below the source line, with the caret. -/
  caretLine : Except Fault String

namespace Diagnostic

/-- The characters that are left out at the start of a shown line. -/
def isIndent (c : Char) : Bool := c = ' ' || c = '\t'

/-- The widest column that can be padded to. -/
def widestColumn : Nat := 65535

/-- A mark at the end of a field of a given width. -/
def padded (fill : Char) (width : Nat) (mark : Char) : String :=
  String.ofList (List.replicate (width - 1) fill ++ [mark])

/-- The margin beside lines whose numbers have a given count of digits. -/
def marginOf (digits : Nat) : String := padded ' ' (digits + 2) '|'

/-- The caret column of a line: how many characters stand from the end of its
    indentation up to and including the reported one. -/
def caretColumn (line : Line) : Except Fault Nat := do
  let removed := Text.byteLength (line.text.takeWhile isIndent)
  let before ← Text.slice line.text removed line.column
  return before.length + 1

/-- The dashes and the caret of a line. -/
def caretOf (line : Line) : Except Fault String := do
  let column ← caretColumn line
  if column ≤ widestColumn then return padded '-' column '^' else throw .columnTooWide

/-- The text of a line as it is shown. -/
def shownText (line : Line) : List Char := Text.trimEnd (line.text.dropWhile isIndent)

/-- The heading over a report. -/
def headingOf (illegal : Illegal) : String :=
  match illegal.tip? with
  | none => "Error: " ++ Illegal.name
  | some tip => "Error: " ++ Illegal.name ++ " (" ++ tip ++ ")"

/-- The diagnostic for an illegal character of a named source. -/
def ofIllegal (name source : String) (illegal : Illegal) : Diagnostic :=
  let line := Line.locate source illegal.position.offset
  let number := toString line.number
  let margin := marginOf number.length
  { heading := headingOf illegal
    location := "-> " ++ name
    margin := margin
    sourceLine := number ++ " | " ++ String.ofList (shownText line)
    caretLine := do return margin ++ " " ++ (← caretOf line) }

/-- The lines above the caret line. -/
def opening (diagnostic : Diagnostic) : List String :=
  [diagnostic.heading, diagnostic.location, diagnostic.margin, diagnostic.sourceLine]

end Diagnostic

end ExprScan
