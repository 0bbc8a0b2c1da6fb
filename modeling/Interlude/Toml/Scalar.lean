import Interlude.Toml.Basic

/-!
# Numbers, words and moments in TOML

The values that are written without quotes. Each of them is a run of letters, digits, signs, points
and colons, and is read as a whole.
-/

namespace Interlude.Toml

/-- Whether a character may be part of a value without quotes. -/
def isScalarChar (c : Char) : Bool :=
  c.isAlphanum || c == '_' || c == '+' || c == '-' || c == '.' || c == ':'

/-- The digits of a run in which single underscores may stand between digits. -/
def digits? (isDigit : Char → Bool) (s : List Char) : Option (List Char) :=
  let groups := s.splitOn '_'
  if groups.all fun g => !g.isEmpty && g.all isDigit then some groups.flatten else none

/-- Digits that do not start with a zero, unless they are just that. -/
def whole? (s : List Char) : Option (List Char) :=
  match s with
  | '0' :: _ :: _ => none
  | s => digits? Char.isDigit s

/-- The sign and what follows it. -/
def splitSign : List Char → Bool × List Char
  | '-' :: rest => (true, rest)
  | '+' :: rest => (false, rest)
  | s => (false, s)

/-- The value of a digit in a base up to 16. -/
def digitValue (c : Char) : Nat :=
  if c.isDigit then c.toNat - '0'.toNat else c.toLower.toNat - 'a'.toNat + 10

/-- A number in another base than ten. -/
def inBase? (base : Nat) (s : List Char) : Option Int := do
  let isDigit (c : Char) : Bool := c.isAlphanum && digitValue c < base
  return (← digits? isDigit s).foldl (fun n c => base * n + digitValue c) 0

/-- The whole numbers that have a place in 64 bits. -/
def inRange (n : Int) : Option Int :=
  if Int64.minValue.toInt ≤ n ∧ n ≤ Int64.maxValue.toInt then some n else none

/-- A whole number. -/
def integer? (s : List Char) : Option Int :=
  match s with
  | '0' :: 'x' :: rest => inBase? 16 rest >>= inRange
  | '0' :: 'o' :: rest => inBase? 8 rest >>= inRange
  | '0' :: 'b' :: rest => inBase? 2 rest >>= inRange
  | s => do
    let (negative, rest) := splitSign s
    let n : Int := Decimal.ofDigits (← whole? rest)
    inRange (if negative then -n else n)

/-- The exponent of a number, if it has one. -/
def exponentOf? : List Char → Option Int
  | [] => some 0
  | _ :: rest => do
    let (negative, rest) := splitSign rest
    let n : Int := Decimal.ofDigits (← digits? Char.isDigit rest)
    return if negative then -n else n

/-- The digits behind the point of a number, if it has one. -/
def fractionOf? : List Char → Option (List Char)
  | [] => some []
  | _ :: rest => digits? Char.isDigit rest

/-- A floating point number. A finite one has a point or an exponent and must not be too large. -/
def float? (s : List Char) : Option Binary64 :=
  let (negative, rest) := splitSign s
  if rest = ['i', 'n', 'f'] then some (.infinity negative)
  else if rest = ['n', 'a', 'n'] then some { Binary64.nan with negative }
  else do
    let isMark (c : Char) : Bool := c == 'e' || c == 'E'
    guard (rest.any fun c => c == '.' || isMark c)
    let mantissa := rest.takeWhile fun c => !isMark c
    let whole ← whole? (mantissa.takeWhile (· ≠ '.'))
    let fraction ← fractionOf? (mantissa.dropWhile (· ≠ '.'))
    let exponent ← exponentOf? (rest.dropWhile fun c => !isMark c)
    let x := Binary64.ofDecimal negative (.ofParts whole fraction exponent)
    if x.isFinite then some x else none

/-- The number that two digits make up, if it is not above a limit. -/
def twoDigits? (limit : Nat) (a b : Char) : Option Nat :=
  let n := Decimal.ofDigits [a, b]
  if a.isDigit ∧ b.isDigit ∧ n ≤ limit then some n else none

/-- The number of days of a month. -/
def daysIn (year month : Nat) : Nat :=
  if month = 2 then
    if year % 4 = 0 ∧ (year % 100 ≠ 0 ∨ year % 400 = 0) then 29 else 28
  else if month = 4 ∨ month = 6 ∨ month = 9 ∨ month = 11 then 30
  else 31

/-- A date, and what follows it. -/
def date? : List Char → Option (List Char × List Char)
  | a :: b :: c :: d :: '-' :: e :: f :: '-' :: g :: h :: rest => do
    let year := Decimal.ofDigits [a, b, c, d]
    guard ([a, b, c, d].all Char.isDigit)
    let month ← twoDigits? 12 e f
    let day ← twoDigits? 31 g h
    guard (1 ≤ month ∧ 1 ≤ day ∧ day ≤ daysIn year month)
    return ([a, b, c, d, '-', e, f, '-', g, h], rest)
  | _ => none

/-- The fraction of a second to nine places, without the zeros at its end but with one digit. -/
def secondFraction (digits : List Char) : List Char :=
  match ((digits.take 9).reverse.dropWhile (· = '0')).reverse with
  | [] => ['.', '0']
  | digits => '.' :: digits

/-- The seconds of a time of day, and what follows them. -/
def seconds? : List Char → Option (List Char × List Char)
  | ':' :: a :: b :: rest => do
    let _ ← twoDigits? 60 a b
    match rest with
    | '.' :: rest =>
      let digits := rest.takeWhile Char.isDigit
      guard (digits ≠ [])
      return (':' :: a :: b :: secondFraction digits, rest.dropWhile Char.isDigit)
    | rest => return ([':', a, b], rest)
  | _ => none

/-- A time of day, and what follows it. The seconds may be missing. -/
def time? : List Char → Option (List Char × List Char)
  | a :: b :: ':' :: c :: d :: rest => do
    let _ ← twoDigits? 23 a b
    let _ ← twoDigits? 59 c d
    let (seconds, rest) := (seconds? rest).getD ([], rest)
    return ([a, b, ':', c, d] ++ seconds, rest)
  | _ => none

/-- The distance of a clock from the common one. -/
def offset? : List Char → Option (List Char)
  | [] => some []
  | ['Z'] => some ['Z']
  | ['z'] => some ['Z']
  | [sign, a, b, ':', c, d] => do
    guard (sign = '+' ∨ sign = '-')
    let hours ← twoDigits? 23 a b
    let minutes ← twoDigits? 59 c d
    let sign := if hours = 0 ∧ minutes = 0 then '+' else sign
    return [sign, a, b, ':', c, d]
  | _ => none

/-- A date, a time of day, or both, of which only the last may tell how far the clock is off. -/
def moment? (s : List Char) : Option (List Char) :=
  match date? s with
  | some (date, []) => some date
  | some (date, sep :: rest) => do
    guard (sep = 'T' ∨ sep = 't' ∨ sep = ' ')
    let (time, rest) ← time? rest
    return date ++ 'T' :: time ++ (← offset? rest)
  | none =>
    match time? s with
    | some (time, []) => some time
    | _ => none

/-- A value that is written without quotes. -/
def scalar? (s : List Char) : Option Toml :=
  if s = ['t', 'r', 'u', 'e'] then some (.boolean true)
  else if s = ['f', 'a', 'l', 's', 'e'] then some (.boolean false)
  else (integer? s).map .integer <|> (float? s).map .float <|>
    (moment? s).map fun m => .moment (String.ofList m)

/-- The run of characters that make up a value without quotes, and what follows it. A blank belongs
to it where it parts a date from a time. -/
def scalarRun (s : List Char) : List Char × List Char :=
  let run := s.takeWhile isScalarChar
  match date? run, s.dropWhile isScalarChar with
  | some (_, []), ' ' :: c :: rest =>
    if c.isDigit then
      (run ++ ' ' :: (c :: rest).takeWhile isScalarChar, (c :: rest).dropWhile isScalarChar)
    else (run, ' ' :: c :: rest)
  | _, rest => (run, rest)

end Interlude.Toml
