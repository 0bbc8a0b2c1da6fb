import Interlude.Decimal.Binary64

/-!
# Reading decimals

A decimal is written as digits with at most one point among them, at least one digit, and perhaps
an exponent after the letter `e`. A floating point number may have a sign, and may be one of the
words for infinity and for what is no number.
-/

namespace Interlude

/-- Digits after an optional sign. -/
def Decimal.exponent? (s : List Char) : Option Int :=
  let (negative, digits) := match s with
    | '-' :: rest => (true, rest)
    | '+' :: rest => (false, rest)
    | rest => (false, rest)
  if digits ≠ [] ∧ digits.all Char.isDigit then
    some (if negative then -(ofDigits digits : Int) else ofDigits digits)
  else none

/-- The decimal with the given digits before and behind the point, and an exponent. -/
def Decimal.ofParts (whole fraction : List Char) (exponent : Int) : Decimal :=
  ⟨ofDigits (whole ++ fraction), exponent - fraction.length⟩

/-- A decimal without a sign. -/
def Decimal.ofText? (s : List Char) : Option Decimal :=
  let whole := s.takeWhile Char.isDigit
  let (fraction, rest) := match s.dropWhile Char.isDigit with
    | '.' :: rest => (rest.takeWhile Char.isDigit, rest.dropWhile Char.isDigit)
    | rest => ([], rest)
  if whole = [] ∧ fraction = [] then none
  else match rest with
    | [] => some (ofParts whole fraction 0)
    | e :: rest =>
      if e = 'e' ∨ e = 'E' then (exponent? rest).map (ofParts whole fraction) else none

/-- A floating point number. -/
def Binary64.ofText? (s : List Char) : Option Binary64 :=
  let (negative, rest) := match s with
    | '-' :: rest => (true, rest)
    | '+' :: rest => (false, rest)
    | rest => (false, rest)
  let word := String.ofList (rest.map Char.toLower)
  if word = "inf" ∨ word = "infinity" then some (infinity negative)
  else if word = "nan" then some { nan with negative }
  else (Decimal.ofText? rest).map (ofDecimal negative)

end Interlude
