import Interlude.Json.Basic

/-!
# Reading JSON

A reader for JSON texts that follows the grammar: blanks may stand around every part, numbers have
no leading zeros and are kept as they are written, and strings hold no bare control characters. The
words `true` and `false` are refused, as no value stands for them, and so is whatever the grammar
does not know: other words, commas without a part behind them, unknown escapes and halves of
surrogate pairs, and a text that goes on after the value.
-/

namespace Interlude

namespace JsonText

/-! ### Blanks -/

/-- A character that may stand between the parts. -/
def isSpace (c : Char) : Bool :=
  c = ' ' || c = '\t' || c = '\n' || c = '\r'

/-- A text without the blanks before it. -/
def skip (s : List Char) : List Char :=
  s.dropWhile isSpace

/-! ### Numbers -/

/-- At least one digit and nothing else. -/
def isDigits (s : List Char) : Bool :=
  s ≠ [] && s.all Char.isDigit

/-- Nothing, or an exponent. -/
def isExponent : List Char → Bool
  | [] => true
  | e :: rest => (e = 'e' || e = 'E') && isDigits (match rest with
    | '+' :: rest => rest
    | '-' :: rest => rest
    | rest => rest)

/-- Nothing, or digits behind a point, and perhaps an exponent. -/
def isFraction : List Char → Bool
  | '.' :: rest =>
    isDigits (rest.takeWhile Char.isDigit) && isExponent (rest.dropWhile Char.isDigit)
  | rest => isExponent rest

/-- A whole part without leading zeros and a fraction. -/
def isUnsigned (s : List Char) : Bool :=
  let whole := s.takeWhile Char.isDigit
  isDigits whole && (whole = ['0'] || whole.head? ≠ some '0') &&
    isFraction (s.dropWhile Char.isDigit)

/-- A number, perhaps with a minus sign. -/
def isNumber : List Char → Bool
  | '-' :: rest => isUnsigned rest
  | rest => isUnsigned rest

/-- A character that may stand in a number. -/
def isNumberChar (c : Char) : Bool :=
  c.isDigit || c = '-' || c = '+' || c = '.' || c = 'e' || c = 'E'

/-- The number at the beginning of a text and what follows it. -/
def number? (s : List Char) : Option (List Char × List Char) :=
  let text := s.takeWhile isNumberChar
  if isNumber text then some (text, s.dropWhile isNumberChar) else none

/-! ### Strings -/

/-- The value of a digit to the base 16. -/
def hexValue? (c : Char) : Option Nat :=
  if c.isDigit then some (c.toNat - '0'.toNat)
  else if 'a' ≤ c ∧ c ≤ 'f' then some (c.toNat - 'a'.toNat + 10)
  else if 'A' ≤ c ∧ c ≤ 'F' then some (c.toNat - 'A'.toNat + 10)
  else none

/-- Four digits to the base 16 and what follows them. -/
def codeUnit? : List Char → Option (Nat × List Char)
  | a :: b :: c :: d :: rest => do
    let high := 16 * (← hexValue? a) + (← hexValue? b)
    let low := 16 * (← hexValue? c) + (← hexValue? d)
    some (256 * high + low, rest)
  | _ => none

/-- A character by its number, or by the two halves of a surrogate pair, and what follows. -/
def unicode? (s : List Char) : Option (Char × List Char) := do
  let (unit, rest) ← codeUnit? s
  if unit < 0xD800 ∨ 0xE000 ≤ unit then some (Char.ofNat unit, rest)
  else match rest with
    | '\\' :: 'u' :: rest => do
      let (low, rest) ← codeUnit? rest
      if unit < 0xDC00 ∧ 0xDC00 ≤ low ∧ low < 0xE000 then
        some (Char.ofNat (0x10000 + 0x400 * (unit - 0xD800) + (low - 0xDC00)), rest)
      else none
    | _ => none

/-- The character of an escape, after the backslash, and what follows it. -/
def escape? : List Char → Option (Char × List Char)
  | [] => none
  | c :: rest =>
    if c = '"' ∨ c = '\\' ∨ c = '/' then some (c, rest)
    else if c = 'b' then some ('\x08', rest)
    else if c = 'f' then some ('\x0c', rest)
    else if c = 'n' then some ('\n', rest)
    else if c = 'r' then some ('\r', rest)
    else if c = 't' then some ('\t', rest)
    else if c = 'u' then unicode? rest
    else none

/-- The characters of a string, after its first quote, and what follows the last one. -/
def string? (s : List Char) : Option (List Char × List Char) :=
  match s with
  | [] => none
  | c :: rest =>
    if c = '"' then some ([], rest)
    else if c = '\\' then
      match escape? rest with
      | none => none
      | some (d, after) =>
        -- An escape takes up characters, so there are fewer left.
        if after.length < rest.length then
          (string? after).map fun (cs, after) => (d :: cs, after)
        else none
    else if c.toNat < 0x20 then none
    else (string? rest).map fun (cs, after) => (c :: cs, after)
termination_by s.length
decreasing_by all_goals simp_wf <;> omega

/-- The name of a field with the colon behind it, and what follows. -/
def name? (s : List Char) : Option (String × List Char) :=
  match skip s with
  | [] => none
  | quote :: rest =>
    if quote = '"' then
      match string? rest with
      | none => none
      | some (name, rest) =>
        match skip rest with
        | [] => none
        | colon :: rest => if colon = ':' then some (String.ofList name, rest) else none
    else none

/-! ### Values -/

/-- What follows a comma, or what follows the end of an array or object. -/
inductive Next where
  | more (rest : List Char)
  | done (rest : List Char)

/-- What comes after a part of an array or object that ends with a bracket. -/
def next? (bracket : Char) (s : List Char) : Option Next :=
  match skip s with
  | [] => none
  | c :: rest =>
    if c = bracket then some (.done rest) else if c = ',' then some (.more rest) else none

/-- What follows the bracket if an array or object ends at once. -/
def empty? (bracket : Char) (s : List Char) : Option (List Char) :=
  match skip s with
  | [] => none
  | c :: rest => if c = bracket then some rest else none

theorem length_skip_le (s : List Char) : (skip s).length ≤ s.length :=
  (List.dropWhile_suffix isSpace).length_le

mutual

/-- The value that a text begins with and what follows it. -/
def value? (s : List Char) : Option (JsonValue × List Char) :=
  match s with
  | [] => none
  | c :: rest =>
    if c = '"' then (string? rest).map fun (cs, after) => (.string (String.ofList cs), after)
    else if c = '[' then
      match empty? ']' rest with
      | some after => some (.array [], after)
      | none => (items? rest).map fun (items, after) => (.array items, after)
    else if c = '{' then
      match empty? '}' rest with
      | some after => some (.object [], after)
      | none => (fields? rest).map fun (fields, after) => (.object fields, after)
    else if c = 'n' then
      if ['u', 'l', 'l'].isPrefixOf rest then some (.null, rest.drop 3) else none
    else (number? (c :: rest)).map fun (text, after) => (.number text, after)
termination_by (s.length, 0)
decreasing_by all_goals (simp_wf; omega)

/-- The items of an array, at least one, and what follows the array. -/
def items? (s : List Char) : Option (List JsonValue × List Char) :=
  match value? (skip s) with
  | none => none
  | some (item, rest) =>
    match next? ']' rest with
    | none => none
    | some (.done after) => some ([item], after)
    | some (.more after) =>
      if after.length < s.length then
        (items? after).map fun (items, after) => (item :: items, after)
      else none
termination_by (s.length, 1)
decreasing_by all_goals
  have := length_skip_le s
  omega

/-- The fields of an object, at least one, and what follows the object. -/
def fields? (s : List Char) : Option (List (String × JsonValue) × List Char) :=
  match name? s with
  | none => none
  | some (name, rest) =>
    if rest.length < s.length then
      match value? (skip rest) with
      | none => none
      | some (value, rest) =>
        match next? '}' rest with
        | none => none
        | some (.done after) => some ([(name, value)], after)
        | some (.more after) =>
          if after.length < s.length then
            (fields? after).map fun (fields, after) => ((name, value) :: fields, after)
          else none
    else none
termination_by (s.length, 1)
decreasing_by all_goals
  have := length_skip_le rest
  omega

end

end JsonText

/-- The value of a JSON text. -/
def JsonValue.ofText? (s : String) : Option JsonValue :=
  match JsonText.value? (JsonText.skip s.toList) with
  | none => none
  | some (v, rest) => if JsonText.skip rest = [] then some v else none

end Interlude
