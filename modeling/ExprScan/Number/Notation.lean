import ExprScan.Number.Shortest

/-! # How floating-point values are written

  A value is written with the fewest digits that identify it. From `0.0001`
  up to, but not including, ten to the sixteenth it is written positionally
  and always with a digit after the point; outside, with a power of ten,
  without a sign on a positive one and without a point that no digit needs.
-/

namespace ExprScan

/-- The least power of ten whose multiples are written positionally. -/
def leastPositional : Int := -4

/-- The least power of ten whose multiples are written with an exponent. -/
def leastScientific : Int := 16

/-- Digits written positionally, with `before` of them ahead of the point. -/
def positional (digits : List Char) (before : Int) : List Char :=
  if before ≤ 0 then ['0', '.'] ++ List.replicate (-before).toNat '0' ++ digits
  else if before < digits.length then
    digits.take before.toNat ++ '.' :: digits.drop before.toNat
  else digits ++ List.replicate (before.toNat - digits.length) '0' ++ ['.', '0']

/-- Digits written with the power of ten of the first one. -/
def scientific (digits : List Char) (power : Int) : List Char :=
  let mantissa := match digits with
    | first :: second :: more => first :: '.' :: second :: more
    | _ => digits
  mantissa ++ 'e' :: (toString power).toList

/-- A positive decimal in the notation that its size calls for. -/
def Decimal.layout (d : Decimal) : List Char :=
  let digits := Nat.toDigits 10 d.digits
  let before := (digits.length : Int) + d.exponent
  if leastPositional < before && before ≤ leastScientific then positional digits before
  else scientific digits (before - 1)

/-- A value as text. A NaN has no sign, every other value keeps its own. -/
def Binary64.text (x : Binary64) : String :=
  if x.isNaN then "NaN"
  else
    let sign := if x.isNegative then "-" else ""
    if x.isInfinite then sign ++ "inf"
    else if x.ordinal = 0 then sign ++ "0.0"
    else sign ++ String.ofList x.magnitude.shortest.layout

end ExprScan
