import Interlude.Decimal.Binary64

/-!
# The fewest digits that read back

Every finite magnitude has an interval of real numbers that round to it. Its shortest decimal is
the one with the fewest digits in that interval, and of those with equally many digits the nearest
one; if two are equally near, the one with an even last digit. Only the two neighbours of the
magnitude on each decimal grid have to be tried.

All numbers are compared in quarters of the unit in the last place of the magnitude, where the ends
of the interval are whole.
-/

namespace Interlude.Binary64

/-- The lower end of the interval in quarters of the unit: half a unit below the magnitude, or a
quarter where the magnitudes below are denser. -/
def lowerQuarters (x : Binary64) : Nat :=
  if x.magnitude.val % perExponent = 0 ∧ 1 < x.exponentField then 4 * x.significand - 1
  else 4 * x.significand - 2

/-- The upper end of the interval in quarters of the unit. -/
def upperQuarters (x : Binary64) : Nat :=
  4 * x.significand + 2

/-- A grid of decimals with a common exponent, measured in the quarters of a binary unit: `point`
times a number of the grid and `unit` times a number of quarters have a common scale. -/
structure Grid where
  exponent : Int
  point : Nat
  unit : Nat

/-- The grid of the decimals with an exponent. -/
def grid (x : Binary64) (exponent : Int) : Grid where
  exponent
  point := Decimal.powerOfTen exponent.toNat <<< (2 - x.exponent).toNat
  unit := Decimal.powerOfTen (-exponent).toNat <<< (x.exponent - 2).toNat

/-- Whether a number of the grid rounds to the magnitude; the ends of the interval do so if the
significand is even. -/
def Grid.holds (g : Grid) (x : Binary64) (n : Nat) : Bool :=
  let place := n * g.point
  let low := x.lowerQuarters * g.unit
  let high := x.upperQuarters * g.unit
  if x.significand % 2 = 0 then low ≤ place && place ≤ high else low < place && place < high

/-- The neighbour of the magnitude on the grid that reads back, the nearer one if both do. -/
def Grid.nearest? (g : Grid) (x : Binary64) : Option Nat :=
  let value := 4 * x.significand * g.unit
  let below := value / g.point
  match g.holds x below, g.holds x (below + 1) with
  | false, false => none
  | true, false => some below
  | false, true => some (below + 1)
  | true, true =>
    let down := value - below * g.point
    let up := (below + 1) * g.point - value
    if down < up ∨ (down = up ∧ below % 2 = 0) then some below else some (below + 1)

/-- The greatest power of ten that is not above a fraction of positive numbers. -/
def floorLog10 (num den : Nat) : Int :=
  if den ≤ num then (Decimal.digitCount (num / den) : Int) - 1
  else -(Decimal.digitCount ((den - 1) / num) : Int)

/-- The power of ten of the first digit of the magnitude. -/
def leadingPower (x : Binary64) : Int :=
  floorLog10 (x.significand <<< x.exponent.toNat) (1 <<< (-x.exponent).toNat)

/-- A decimal without zeros at the end of its digits. -/
def dropZeros (digits : Nat) (exponent : Int) : Decimal :=
  if h : digits ≠ 0 ∧ digits % 10 = 0 then dropZeros (digits / 10) (exponent + 1)
  else ⟨digits, exponent⟩
termination_by digits
decreasing_by omega

/-- The shortest decimal of a finite magnitude; 17 digits are always enough. -/
def shortest (x : Binary64) : Decimal :=
  if x.significand = 0 then ⟨0, 0⟩
  else
    let first := x.leadingPower
    let found := (List.range 17).findSome? fun (n : Nat) =>
      let g := x.grid (first - n)
      (g.nearest? x).map fun digits => dropZeros digits g.exponent
    found.getD ⟨0, 0⟩

end Interlude.Binary64
