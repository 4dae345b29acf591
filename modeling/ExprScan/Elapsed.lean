/-! # Elapsed time

  A duration is written in the largest of seconds, milliseconds, microseconds
  and nanoseconds that it reaches, with all the digits that it has.
-/

namespace ExprScan

/-- A whole number of units, of which a power of ten make up one greater
    unit, written in the greater unit. -/
def withPoint (count places : Nat) : String :=
  let unit := Nat.pow 10 places
  let digits := Nat.toDigits 10 (count % unit)
  let fraction := List.replicate (places - digits.length) '0' ++ digits
  let shown := (fraction.reverse.dropWhile (· = '0')).reverse
  let whole := toString (count / unit)
  if shown.isEmpty then whole else whole ++ "." ++ String.ofList shown

/-- A duration in nanoseconds, as text. -/
def elapsedText (nanoseconds : Nat) : String :=
  if nanoseconds < 1000 then toString nanoseconds ++ "ns"
  else if nanoseconds < 1000000 then withPoint nanoseconds 3 ++ "µs"
  else if nanoseconds < 1000000000 then withPoint nanoseconds 6 ++ "ms"
  else withPoint nanoseconds 9 ++ "s"

end ExprScan
