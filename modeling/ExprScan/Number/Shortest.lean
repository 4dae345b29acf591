import ExprScan.Number.Binary64

/-! # The shortest decimal of a value

  The decimal that stands for a floating-point value has the fewest digits
  that read back to it, and among those it is the one nearest to it. Of two
  that are equally near, the greater is taken.

  A decimal reads back to a value when it lies between the midpoints to the
  two neighbouring values; a midpoint itself counts when the significand is
  even. All comparisons are made on natural numbers, so they are exact. For
  a given number of digits, the decimals of that precision form a grid, and
  only the two points of the grid next to the value need to be tried.
-/

namespace ExprScan

/-! ### Decimals and magnitudes -/

/-- The number `digits * 10 ^ exponent`. -/
structure Decimal where
  digits : Nat
  exponent : Int
deriving DecidableEq, Repr

/-- The size of a finite value: `significand * 2 ^ unit`. -/
structure Magnitude where
  significand : Nat
  unit : Int
  /-- The value below is only half a unit away, as under a power of two. -/
  narrow : Bool
deriving DecidableEq, Repr

/-- The magnitude of a finite value. -/
def Binary64.magnitude (x : Binary64) : Magnitude :=
  let exponent : Nat := x.ordinal / binade
  let fraction : Nat := x.ordinal % binade
  if exponent = 0 then ⟨fraction, -1074, false⟩
  else ⟨binade + fraction, (exponent : Int) - 1075, fraction = 0 && 1 < exponent⟩

/-- Compares `a * 10 ^ i` with `b * 2 ^ j`. -/
def compareScaled (a : Nat) (i : Int) (b : Nat) (j : Int) : Ordering :=
  compare ((a * Nat.pow 10 i.toNat) <<< (-j).toNat) ((b * Nat.pow 10 (-i).toNat) <<< j.toNat)

namespace Magnitude

/-- Whether a decimal lies among the numbers that round to the value. The
    bounds are counted in quarters of a unit. -/
def readsBack (x : Magnitude) (d : Decimal) : Bool :=
  let lower := if x.narrow then 4 * x.significand - 1 else 4 * x.significand - 2
  let upper := 4 * x.significand + 2
  let closed := x.significand % 2 == 0
  let below := compareScaled d.digits d.exponent lower (x.unit - 2)
  let above := compareScaled d.digits d.exponent upper (x.unit - 2)
  (below == .gt || (closed && below == .eq)) && (above == .lt || (closed && above == .eq))

/-! ### Selecting the digits -/

/-- Whether the value is at least a power of ten. -/
def reaches (x : Magnitude) (k : Int) : Bool :=
  compareScaled 1 k x.significand x.unit != .gt

/-- The least `k` such that a positive value is below `10 ^ k`. The decimal
    logarithm is first estimated from the binary one, from below. -/
def scale (x : Magnitude) : Int :=
  let log2 := x.unit + (x.significand.log2 : Int)
  let guess := (log2 * 30103).fdiv 100000
  if !x.reaches guess then guess
  else if !x.reaches (guess + 1) then guess + 1
  else guess + 2

/-- The decimal of a given number of digits that reads back to the value, if
    there is one: the nearer of the two next to it, the greater on a tie. -/
def candidate? (x : Magnitude) (precision : Nat) : Option Decimal :=
  let grid := x.scale - precision
  let below := ((x.significand * Nat.pow 10 (-grid).toNat) <<< x.unit.toNat) /
    (Nat.pow 10 grid.toNat <<< (-x.unit).toNat)
  let lower : Decimal := ⟨below, grid⟩
  let upper : Decimal := ⟨below + 1, grid⟩
  match x.readsBack lower, x.readsBack upper with
  | true, true =>
    if compareScaled (2 * below + 1) grid (2 * x.significand) x.unit == .gt then some lower
    else some upper
  | true, false => some lower
  | false, true => some upper
  | false, false => none

/-- The value itself as a decimal. -/
def exact (x : Magnitude) : Decimal :=
  if 0 ≤ x.unit then ⟨x.significand <<< x.unit.toNat, 0⟩
  else ⟨x.significand * Nat.pow 5 (-x.unit).toNat, x.unit⟩

end Magnitude

/-- The same number without zeros at the end of its digits. -/
def Decimal.strip (d : Decimal) : Decimal :=
  if h : d.digits ≠ 0 ∧ d.digits % 10 = 0 then
    strip ⟨d.digits / 10, d.exponent + 1⟩
  else d
termination_by d.digits
decreasing_by omega

/-- The decimal with the fewest digits that reads back to a positive value.
    Seventeen digits always suffice. -/
def Magnitude.shortest (x : Magnitude) : Decimal :=
  let found := (List.range 17).findSome? fun n => x.candidate? (n + 1)
  (found.getD x.exact).strip

end ExprScan
