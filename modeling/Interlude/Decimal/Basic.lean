/-!
# Decimal numbers

A decimal is a whole number times a power of ten. It is written with the point inside its digits
or filled up by zeros, or with one digit before the point and an exponent.
-/

namespace Interlude

/-- The number `digits * 10 ^ exponent`. -/
structure Decimal where
  digits : Nat
  exponent : Int
  deriving DecidableEq, Repr

namespace Decimal

/-- A power of ten. -/
def powerOfTen (exponent : Nat) : Nat :=
  Nat.pow 10 exponent

/-- The digits of a whole number in base ten. -/
def digitsOf (n : Nat) : List Char :=
  Nat.toDigits 10 n

/-- The number that digits make up. -/
def ofDigits (digits : List Char) : Nat :=
  digits.foldl (fun n d => 10 * n + (d.toNat - '0'.toNat)) 0

/-- The number of digits of a whole number. -/
def digitCount (n : Nat) : Nat :=
  (digitsOf n).length

/-- The number of digits before the point; zero or less if the number begins behind the point. -/
def pointAfter (d : Decimal) : Int :=
  digitCount d.digits + d.exponent

/-- The text without an exponent. A whole number ends in `.0` if `point` is set. -/
def positional (point : Bool) (d : Decimal) : List Char :=
  let digits := digitsOf d.digits
  if 0 ≤ d.exponent then
    let whole := if d.digits = 0 then ['0'] else digits ++ List.replicate d.exponent.toNat '0'
    whole ++ if point then ['.', '0'] else []
  else if 0 < d.pointAfter then
    digits.take d.pointAfter.toNat ++ '.' :: digits.drop d.pointAfter.toNat
  else '0' :: '.' :: List.replicate (-d.pointAfter).toNat '0' ++ digits

/-- The text of a whole number with its sign. -/
def signed (n : Int) : List Char :=
  if n < 0 then '-' :: digitsOf n.natAbs else digitsOf n.natAbs

/-- The text with one digit before the point and an exponent, which always has a sign. -/
def scientific (d : Decimal) : List Char :=
  let exponent := d.pointAfter - 1
  let mantissa :=
    match digitsOf d.digits with
    | [] => []
    | [first] => [first]
    | first :: rest => first :: '.' :: rest
  mantissa ++ 'e' :: (if exponent < 0 then signed exponent else '+' :: signed exponent)

end Decimal

end Interlude
