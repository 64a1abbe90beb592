/-
This file holds the numbers of the binary format with 64 bits, and rounds decimals to them in exact
arithmetic.
-/
import StorageSchema.Number.Decimal

namespace StorageSchema

/-- This function rounds a quotient to the nearest whole number, and a half goes to the even one. -/
def roundQuotient (dividend divisor : Nat) : Nat :=
  let quotient := dividend / divisor
  let rest := dividend % divisor
  if 2 * rest < divisor ∨ (2 * rest = divisor ∧ quotient % 2 = 0) then quotient else quotient + 1

/-- The rank of infinity is the number of finite magnitudes. -/
def Double.infiniteRank : Nat := 2047 * Nat.pow 2 52

/-- A double is a sign and the rank of its magnitude among all magnitudes in increasing order, which
is what the 63 bits after the sign hold. -/
structure Double where
  negative : Bool
  rank : Nat
  rank_le : rank ≤ Double.infiniteRank
  deriving DecidableEq

/-- The least positive magnitude is one part in so many of the number one. -/
def Double.granularity : Nat := Nat.pow 2 1074

/-- Magnitudes are spaced `2 ^ doublings` grains apart around a magnitude of this rank. -/
def Double.doublings (number : Double) : Nat := number.rank / Nat.pow 2 52 - 1

/-- The significand counts the spacings that make up the magnitude. -/
def Double.significand (number : Double) : Nat := number.rank - number.doublings * Nat.pow 2 52

/-- The infinite magnitude has the greatest rank. -/
def Double.isInfinite (number : Double) : Bool := number.rank = Double.infiniteRank

/-- The rank of the magnitude nearest to a quotient of grains keeps 53 significant bits of it. -/
def Double.rankOfGrains (dividend divisor : Nat) : Nat :=
  let doublings := (dividend / divisor).log2 - 52
  doublings * Nat.pow 2 52 + roundQuotient dividend (divisor * Nat.pow 2 doublings)

/-- A decimal is rounded to the nearest double, and to infinity beyond the finite ones. -/
def Double.ofDecimal (decimal : Decimal) : Double :=
  ⟨decimal.negative,
    min Double.infiniteRank
      (rankOfGrains (decimal.units * Double.granularity) (Nat.pow 10 decimal.scale)),
    Nat.min_le_left _ _⟩

/-- The bits of a double are its sign and its rank. -/
def Double.bits (number : Double) : Nat := number.negative.toNat * Nat.pow 2 63 + number.rank

end StorageSchema
