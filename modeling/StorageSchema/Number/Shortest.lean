/-
This file finds the shortest decimal that is rounded to a given double. All magnitudes are counted
in units of `10 ^ -1074`, of which each of them is a whole number.
-/
import StorageSchema.Number.Double

namespace StorageSchema

/-- One spacing around the magnitude has this many units. -/
def Double.spacing (number : Double) : Nat := Nat.pow 2 number.doublings * Nat.pow 5 1074

/-- The magnitude has this many units. -/
def Double.units (number : Double) : Nat := number.significand * number.spacing

/-- Below a power of two the magnitudes stand twice as close, so the quarter of a spacing is the
whole way to the middle there. -/
def Double.quartersBelow (number : Double) : Nat :=
  if number.significand = Nat.pow 2 52 ∧ 0 < number.doublings then 1 else 2

/-- This function tells whether so many units are rounded to the double. A number in the middle
between two of them goes to the even significand. -/
def Double.attracts (number : Double) (units : Nat) : Bool :=
  let low := 4 * number.units - number.quartersBelow * number.spacing
  let high := 4 * number.units + 2 * number.spacing
  if number.significand % 2 = 0 then low ≤ 4 * units && 4 * units ≤ high
  else low < 4 * units && 4 * units < high

/-- Among the multiples of `10 ^ power` that are rounded to the double, this is the factor of the
nearest, and the even one of two that are equally near. -/
def Double.factorAt? (number : Double) (power : Nat) : Option Nat :=
  let factor := number.units / Nat.pow 10 power
  let rest := number.units % Nat.pow 10 power
  match number.attracts (factor * Nat.pow 10 power),
      number.attracts ((factor + 1) * Nat.pow 10 power) with
  | true, true =>
      if 2 * rest < Nat.pow 10 power ∨ (2 * rest = Nat.pow 10 power ∧ factor % 2 = 0) then
        some factor
      else some (factor + 1)
  | true, false => some factor
  | false, true => some (factor + 1)
  | false, false => none

/-- The greatest power below the bound that has a multiple rounded to the double leaves the fewest
digits, and the magnitude itself is a multiple of one. -/
def Double.shortestBelow (number : Double) : Nat → Nat × Nat
  | 0 => (number.units, 0)
  | power + 1 =>
      match number.factorAt? power with
      | some factor => (factor, power)
      | none => number.shortestBelow power

/-- The shortest decimal of a double has these significant digits, the first of which stands at the
given power of ten. -/
def Double.shortest (number : Double) : List Char × Int :=
  let found := number.shortestBelow (Nat.toDigits 10 number.units).length
  let digits := Nat.toDigits 10 found.1
  ((digits.reverse.dropWhile (· = '0')).reverse,
    Int.ofNat (digits.length + found.2) - 1 - 1074)

end StorageSchema
