/-! # Records in full

  The exhaustive form in which a value with named parts is shown to the
  people who work on a program: the name of the value, then each part with
  its name, between braces.
-/

namespace ExprScan.Text

/-- A value shown by its name and its named parts. -/
def record (name : String) (parts : List (String × String)) : String :=
  name ++ " \x7b " ++ ", ".intercalate (parts.map fun part => part.1 ++ ": " ++ part.2) ++ " \x7d"

/-- A value shown by its name and one unnamed part. -/
def wrapped (name part : String) : String := name ++ "(" ++ part ++ ")"

end ExprScan.Text
