import Interlude.Decimal.Basic

/-!
# Floating point numbers of 64 bits

A `Binary64` is a sign and the place of the magnitude in the order of all magnitudes: zero, the
finite ones, infinity, and the values that are no numbers. In that order, 2^52 magnitudes share an
exponent, so a finite magnitude is `significand * 2 ^ exponent` for numbers read off its place.
A fraction of whole numbers is rounded to the nearest finite magnitude, of two equally near ones to
the one at an even place.
-/

namespace Interlude

/-- A floating point number. -/
structure Binary64 where
  negative : Bool
  /-- The place of the magnitude, which has 63 bits; the lowest 52 belong to the significand. -/
  magnitude : Fin 0x8000000000000000
  deriving DecidableEq, Repr

namespace Binary64

/-- How many magnitudes share an exponent: two to the power of 52. -/
def perExponent : Nat := 0x10000000000000

/-- The place of infinity, above which there are no numbers. -/
def infinityPlace : Nat := 2047 * perExponent

/-- Whether it is a number and not infinite. -/
def isFinite (x : Binary64) : Bool :=
  x.magnitude.val < infinityPlace

/-- The number at a place, or infinity for a place beyond. -/
def ofPlace (negative : Bool) (place : Nat) : Binary64 :=
  ⟨negative, ⟨min place infinityPlace, by unfold infinityPlace perExponent; omega⟩⟩

/-- The infinite number. -/
def infinity (negative : Bool) : Binary64 :=
  ofPlace negative infinityPlace

/-- The value that is no number. -/
def nan : Binary64 :=
  ⟨false, ⟨infinityPlace + perExponent / 2, by decide⟩⟩

/-- The number zero. -/
def zero : Binary64 := ofPlace false 0

/-- The bits of the place that say the exponent. -/
def exponentField (x : Binary64) : Nat :=
  x.magnitude.val / perExponent

/-- The whole number in a finite magnitude; its highest bit is left out in the place unless the
exponent is the lowest one. -/
def significand (x : Binary64) : Nat :=
  x.magnitude.val % perExponent + if x.exponentField = 0 then 0 else perExponent

/-- The lowest exponent. -/
def minExponent : Int := -1074

/-- The power of two in a finite magnitude. -/
def exponent (x : Binary64) : Int :=
  minExponent + (max x.exponentField 1 - 1 : Nat)

/-- The whole number nearest to a fraction; a half goes to the even neighbour. -/
def roundDiv (num den : Nat) : Nat :=
  let q := num / den
  let r := num % den
  if den < 2 * r ∨ (den = 2 * r ∧ q % 2 = 1) then q + 1 else q

/-- The greatest power of two that is not above a fraction of positive numbers. -/
def floorLog2 (num den : Nat) : Int :=
  let guess : Int := (Nat.log2 num : Int) - Nat.log2 den
  if num <<< (-guess).toNat < den <<< guess.toNat then guess - 1 else guess

/-- The magnitude nearest to a fraction, with a sign. -/
def ofRatio (negative : Bool) (num den : Nat) : Binary64 :=
  if num = 0 ∨ den = 0 then ofPlace negative 0
  else
    let exponent := max (floorLog2 num den - 52) minExponent
    let significand := roundDiv (num <<< (-exponent).toNat) (den <<< exponent.toNat)
    ofPlace negative ((exponent - minExponent).toNat * perExponent + significand)

/-- The magnitude nearest to a decimal, with a sign. Decimals that are far out of range are not
computed. -/
def ofDecimal (negative : Bool) (d : Decimal) : Binary64 :=
  if d.digits = 0 ∨ d.pointAfter < -400 then ofPlace negative 0
  else if 400 < d.pointAfter then infinity negative
  else
    ofRatio negative (d.digits * Decimal.powerOfTen d.exponent.toNat)
      (Decimal.powerOfTen (-d.exponent).toNat)

end Binary64

end Interlude
