/-! # Decimals and their text

A decimal is a natural number times a power of ten.  It is written positionally
(`123.0`, `0.0001`) or with an exponent (`1.5e-7`); a `Layout` says which decimals are written
which way. -/

namespace Script

/-- The number `coefficient * 10 ^ exponent`. -/
structure Decimal where
  coefficient : Nat
  exponent : Int
  deriving DecidableEq

namespace Decimal

/-- The decimal digits of the coefficient. -/
def digits (d : Decimal) : List Char :=
  Nat.toDigits 10 d.coefficient

/-- The exponent of the leading digit: a decimal is at least `10 ^ order` and below
`10 ^ (order + 1)`. -/
def order (d : Decimal) : Int :=
  d.exponent + (d.digits.length : Int) - 1

/-- A number of zeros. -/
def zeros (n : Nat) : List Char :=
  List.replicate n '0'

/-- All digits in their places, with at least one on each side of the point. -/
def positional (d : Decimal) : List Char :=
  let before := d.order + 1
  if 0 ≤ d.exponent then
    d.digits ++ zeros d.exponent.toNat ++ ['.', '0']
  else if 0 < before then
    d.digits.take before.toNat ++ '.' :: d.digits.drop before.toNat
  else
    '0' :: '.' :: (zeros (-before).toNat ++ d.digits)

/-- One digit in front of the point, which is left out when nothing follows it, and the exponent. -/
def scientific (d : Decimal) : List Char :=
  let mantissa :=
    match d.digits with
    | first :: second :: more => first :: '.' :: second :: more
    | few => few
  mantissa ++ 'e' :: (toString d.order).toList

/-- Which decimals are written positionally: those whose order is at least `least` and below
`limit`. -/
structure Layout where
  least : Int
  limit : Int

/-- The text of a decimal. -/
def text (layout : Layout) (d : Decimal) : String :=
  String.ofList <|
    if layout.least ≤ d.order ∧ d.order < layout.limit then d.positional else d.scientific

end Decimal

end Script
