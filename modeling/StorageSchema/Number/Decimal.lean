/-
This file reads the decimal spelling of a number.
-/

namespace StorageSchema

/-- A decimal is a whole number of units, of which `10 ^ scale` make one, with a sign. -/
structure Decimal where
  negative : Bool
  units : Nat
  scale : Nat
  deriving DecidableEq, Repr

/-- This function reads decimal digits, most significant first. -/
def Decimal.digitsValue (digits : List Char) : Nat :=
  digits.foldl (fun value digit => 10 * value + (digit.toNat - '0'.toNat)) 0

/-- Digits may be followed by a point and the digits after it. -/
def Decimal.ofUnsigned (text : List Char) : Decimal :=
  let whole := text.takeWhile Char.isDigit
  let places := (text.dropWhile Char.isDigit).drop 1
  ⟨false, digitsValue (whole ++ places), places.length⟩

/-- A spelling may begin with a minus sign. -/
def Decimal.ofSpelling : List Char → Decimal
  | '-' :: rest => { ofUnsigned rest with negative := true }
  | text => ofUnsigned text

/-- A numeral has digits, and if a point follows them then digits follow the point too. -/
def Decimal.isUnsigned (text : List Char) : Bool :=
  match text.dropWhile Char.isDigit with
  | [] => !text.isEmpty
  | '.' :: places =>
      text.head?.any Char.isDigit && !places.isEmpty && places.all Char.isDigit
  | _ => false

/-- What is not spelled as a number is not read. -/
def Decimal.ofSpelling? (text : List Char) : Option Decimal :=
  let magnitude := if text.head? = some '-' then text.drop 1 else text
  if isUnsigned magnitude then some (ofSpelling text) else none

end StorageSchema
