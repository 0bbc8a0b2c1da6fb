import Interlude.Decimal.Basic

/-!
# Timestamps

A moment is counted in seconds from the start of the year 1970 and written as a date and a time of
day.
-/

namespace Interlude.Timestamp

/-- The days of a year. -/
def daysOfYear (year : Nat) : Nat :=
  if year % 4 = 0 ∧ (year % 100 ≠ 0 ∨ year % 400 = 0) then 366 else 365

/-- The days of the months of a year. -/
def daysOfMonths (year : Nat) : List Nat :=
  [31, if daysOfYear year = 366 then 29 else 28, 31, 30, 31, 30, 31, 31, 30, 31, 30, 31]

/-- The year in which a day lies that is counted from the start of a year, and its place in it.
There are at least 365 days to a year, so that `bound` years are enough for 365 times as many
days. -/
def yearOf : (bound year day : Nat) → Nat × Nat
  | 0, year, day => (year, day)
  | bound + 1, year, day =>
    if day < daysOfYear year then (year, day)
    else yearOf bound (year + 1) (day - daysOfYear year)

/-- The month in which a day lies that is counted from the start of a month, and its place in it,
both counted from 1. -/
def monthOf : (month day : Nat) → List Nat → Nat × Nat
  | month, day, [] => (month, day + 1)
  | month, day, length :: rest =>
    if day < length then (month, day + 1) else monthOf (month + 1) (day - length) rest

/-- A number with zeros before it up to a width. -/
def zeros (width n : Nat) : List Char :=
  let digits := Decimal.digitsOf n
  List.replicate (width - digits.length) '0' ++ digits

/-- The date and the time of day of a moment, as a clock shows them that is not off. -/
def text (seconds : Nat) : String :=
  let days := seconds / 86400
  let (year, day) := yearOf (days / 365 + 1) 1970 days
  let (month, day) := monthOf 1 day (daysOfMonths year)
  let time := seconds % 86400
  let part (c : Char) (n : Nat) : List Char := c :: zeros 2 n
  String.ofList (zeros 4 year ++ part '-' month ++ part '-' day ++
    part 'T' (time / 3600) ++ part ':' (time / 60 % 60) ++ part ':' (time % 60) ++
    ['+', '0', '0', ':', '0', '0'])

end Interlude.Timestamp
