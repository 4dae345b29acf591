/-! # Binary floating point of 64 bits

  A value is its bits: a sign, eleven bits of exponent and fifty-two of
  fraction. Nothing here computes with floating point. A value is made from
  an exact ratio by rounding to the nearest representable number, ties to
  the even significand, in natural arithmetic.

  The bits of a non-negative value, read as a number, count the values below
  it, and a binade holds `2 ^ 52` of them. A significand counted in units of
  `2 ^ unit` therefore sits `unit + 1074` binades above itself, and one that
  rounds up to `2 ^ 53` is carried into the next binade by the same sum.
-/

namespace ExprScan

/-- A binary floating-point value of 64 bits. -/
structure Binary64 where
  bits : UInt64
deriving DecidableEq, Repr

namespace Binary64

/-! ### The parts of a value -/

/-- The sign bit, read as a number. -/
def signBit : Nat := 0x8000000000000000

/-- How many values share an exponent: one for each fraction. -/
def binade : Nat := 0x10000000000000

/-- Whether the sign bit is set. -/
def isNegative (x : Binary64) : Bool := signBit ≤ x.bits.toNat

/-- The bits without the sign, read as a number. -/
def ordinal (x : Binary64) : Nat := x.bits.toNat % signBit

/-- The ordinal of infinity: every finite value lies below it, every NaN
    above. -/
def infinityOrdinal : Nat := 0x7FF0000000000000

/-- Positive infinity. -/
def infinity : Binary64 := ⟨UInt64.ofNat infinityOrdinal⟩

/-- Whether the value is not a number. -/
def isNaN (x : Binary64) : Bool := infinityOrdinal < x.ordinal

/-- Whether the value is infinite. -/
def isInfinite (x : Binary64) : Bool := x.ordinal = infinityOrdinal

/-- Equality of the numbers that two values stand for. A NaN equals nothing,
    and the two zeros are equal. -/
def sameNumber (x y : Binary64) : Bool :=
  !x.isNaN && !y.isNaN && (x = y || (x.ordinal = 0 && y.ordinal = 0))

/-! ### Rounding a ratio -/

/-- A quotient rounded to the nearest natural number, a tie to the even one. -/
def roundHalfEven (num den : Nat) : Nat :=
  let quotient := num / den
  let remainder := num % den
  if 2 * remainder < den then quotient
  else if den < 2 * remainder then quotient + 1
  else quotient + quotient % 2

/-- The greatest `e` such that `2 ^ e` is at most `num / den`, for a positive
    ratio. -/
def floorLog2 (num den : Nat) : Int :=
  let guess : Int := (num.log2 : Int) - (den.log2 : Int)
  if den <<< guess.toNat ≤ num <<< (-guess).toNat then guess else guess - 1

/-- The exponent of the spacing of values around a positive ratio: fifty-three
    significant bits, and no finer than the least positive value. -/
def unitOf (num den : Nat) : Int := max (floorLog2 num den - 52) (-1074)

/-- The value nearest to `num / den`, a tie to the even significand; infinity
    where the nearest value would lie beyond the greatest finite one. -/
def ofRatio (num den : Nat) : Binary64 :=
  if num = 0 then ⟨0⟩
  else
    let unit := unitOf num den
    let significand := roundHalfEven (num <<< (-unit).toNat) (den <<< unit.toNat)
    ⟨UInt64.ofNat (min ((unit + 1074).toNat * binade + significand) infinityOrdinal)⟩

end Binary64

end ExprScan
