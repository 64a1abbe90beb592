/-
This file writes doubles as numbers of a JSON text.
-/
import StorageSchema.Number.Shortest

namespace StorageSchema

/-- These powers of ten of the first digit are written without an exponent. -/
def Double.leastPlainPower : Int := -5

/-- From the next power on an exponent is written. -/
def Double.greatestPlainPower : Int := 15

/-- The plain form has at least one digit on either side of the point. -/
def Double.plainDigits (digits : List Char) (power : Int) : List Char :=
  if power < 0 then
    '0' :: '.' :: (List.replicate (-power - 1).toNat '0' ++ digits)
  else
    let count := power.toNat + 1
    let whole := digits.take count ++ List.replicate (count - digits.length) '0'
    whole ++ '.' :: (if digits.length ≤ count then ['0'] else digits.drop count)

/-- The scientific form has one digit before the point and a sign before the exponent. -/
def Double.scientificDigits (digits : List Char) (power : Int) : List Char :=
  let mantissa :=
    match digits with
    | first :: second :: rest => first :: '.' :: second :: rest
    | _ => digits
  let sign := if power < 0 then '-' else '+'
  mantissa ++ 'e' :: sign :: Nat.toDigits 10 power.natAbs

/-- The written form of a magnitude is plain where the power of the first digit allows it. -/
def Double.magnitudeText (number : Double) : List Char :=
  if number.rank = 0 then ['0', '.', '0']
  else
    let shortest := number.shortest
    if leastPlainPower ≤ shortest.2 ∧ shortest.2 ≤ greatestPlainPower then
      plainDigits shortest.1 shortest.2
    else scientificDigits shortest.1 shortest.2

/-- A finite number is written with its sign, also the negative zero, and an infinite one has no
written form. -/
def Double.written? (number : Double) : Option String :=
  if number.isInfinite then none
  else
    let magnitude := number.magnitudeText
    some (String.ofList (if number.negative then '-' :: magnitude else magnitude))

end StorageSchema
