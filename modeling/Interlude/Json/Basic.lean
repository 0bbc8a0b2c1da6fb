import Interlude.Decimal.Shortest

/-!
# JSON values

The values of JSON, with numbers as the text that stands for them, and their text on one line.
-/

namespace Interlude

/-- A JSON value. -/
inductive JsonValue where
  | null
  /-- A number as it is written. -/
  | number (text : List Char)
  | string (s : String)
  | array (items : List JsonValue)
  | object (fields : List (String × JsonValue))

namespace JsonValue

/-- A digit to the base 16. -/
def hexDigit (n : Nat) : Char :=
  if n < 10 then Char.ofNat ('0'.toNat + n) else Char.ofNat ('a'.toNat + (n - 10))

/-- A character inside quotes: quotes, backslashes and control characters are escaped. -/
def escapeChar (c : Char) : List Char :=
  if c = '"' then ['\\', '"']
  else if c = '\\' then ['\\', '\\']
  else if c = '\x08' then ['\\', 'b']
  else if c = '\t' then ['\\', 't']
  else if c = '\n' then ['\\', 'n']
  else if c = '\x0c' then ['\\', 'f']
  else if c = '\r' then ['\\', 'r']
  else if c.toNat < 0x20 then
    ['\\', 'u', '0', '0', hexDigit (c.toNat / 16), hexDigit (c.toNat % 16)]
  else [c]

/-- A string with its quotes. -/
def quote (s : String) : List Char :=
  '"' :: s.toList.flatMap escapeChar ++ ['"']

/-- A whole number. -/
def ofInt (n : Int) : JsonValue :=
  .number (Decimal.signed n)

/-- A whole number without sign. -/
def ofNat (n : Nat) : JsonValue :=
  .number (Decimal.digitsOf n)

/-- The text of a floating point number: the fewest digits that read back, with an exponent below
`1e-5` and from `1e+16` on. -/
def float64Text (x : Binary64) : List Char :=
  let d := x.shortest
  let digits :=
    if d.digits = 0 ∨ (-5 < d.pointAfter ∧ d.pointAfter ≤ 16) then d.positional true
    else d.scientific
  if x.negative then '-' :: digits else digits

/-- A floating point number; what is no finite number is null. -/
def ofBinary64 (x : Binary64) : JsonValue :=
  if x.isFinite then .number (float64Text x) else .null

/-- A value that may be absent. -/
def ofOption (f : α → JsonValue) : Option α → JsonValue
  | none => .null
  | some a => f a

/-- The marks between the parts of a value on one line. -/
structure Marks where
  /-- Between items. -/
  comma : List Char
  /-- Between a name and its value. -/
  colon : List Char

/-- Marks with a blank after them. -/
def Marks.spaced : Marks := ⟨[',', ' '], [':', ' ']⟩

/-- Marks without blanks. -/
def Marks.tight : Marks := ⟨[','], [':']⟩

mutual

/-- A value on one line. -/
def line (m : Marks) : JsonValue → List Char
  | .null => ['n', 'u', 'l', 'l']
  | .number text => text
  | .string s => quote s
  | .array [] => ['[', ']']
  | .array (item :: items) => '[' :: (line m item ++ itemsLine m items)
  | .object [] => ['{', '}']
  | .object ((name, value) :: fields) =>
    '{' :: (quote name ++ m.colon ++ line m value ++ fieldsLine m fields)

/-- The items after the first one and the end of the array. -/
def itemsLine (m : Marks) : List JsonValue → List Char
  | [] => [']']
  | item :: items => m.comma ++ line m item ++ itemsLine m items

/-- The fields after the first one and the end of the object. -/
def fieldsLine (m : Marks) : List (String × JsonValue) → List Char
  | [] => ['}']
  | (name, value) :: fields =>
    m.comma ++ quote name ++ m.colon ++ line m value ++ fieldsLine m fields

end

end JsonValue

end Interlude
