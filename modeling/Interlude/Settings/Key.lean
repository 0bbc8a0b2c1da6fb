import Interlude.Toml.Parser

/-!
# Keys of settings

A key names a place in nested tables and arrays: a name, and then further names after dots and
places in brackets, as in `conversion[0].title`. A place that is negative counts from the end.
Giving a key a value makes the tables and arrays on the way; what stands there in another form gives
way.
-/

namespace Interlude

/-- A step from a value to one of its parts. -/
inductive KeyStep where
  | field (name : String)
  | item (place : Int)
  deriving DecidableEq, Repr

namespace KeyStep

/-- A name, and what follows it. -/
def name? (s : List Char) : Option (String × List Char) :=
  let name := s.takeWhile Toml.isKeyChar
  if name.isEmpty then none else some (String.ofList name, s.dropWhile Toml.isKeyChar)

/-- A place up to the closing bracket, and what follows it. -/
def place? (s : List Char) : Option (Int × List Char) := do
  let s := Toml.dropBlanks s
  let negative := s.head? = some '-'
  let s := if negative then s.drop 1 else s
  let digits := s.takeWhile Char.isDigit
  guard (digits ≠ [])
  match Toml.dropBlanks (s.dropWhile Char.isDigit) with
  | ']' :: rest =>
    let n : Int := Decimal.ofDigits digits
    return (← Toml.inRange (if negative then -n else n), rest)
  | _ => none

/-- The steps after the name that a key begins with. Each takes at least a character, so `bound`
need not be more than their number. -/
def further? : (bound : Nat) → List Char → Option (List KeyStep)
  | _, [] => some []
  | bound + 1, '.' :: rest => do
    let (name, rest) ← name? rest
    return .field name :: (← further? bound rest)
  | bound + 1, '[' :: rest => do
    let (place, rest) ← place? rest
    return .item place :: (← further? bound rest)
  | _, _ => none

/-- The steps of a key. One that does not have the form of a key is a name as it is. -/
def ofKey (key : String) : List KeyStep :=
  let steps? : Option (List KeyStep) := do
    let (name, rest) ← name? key.toList
    return .field name :: (← further? rest.length rest)
  steps?.getD [.field key]

end KeyStep

namespace Toml

/-- What stands at a place that nothing has been put in. -/
def nothing : Toml := .array []

/-- The fields of a table. Another value has none. -/
def fields : Toml → List (String × Toml)
  | table fields => fields
  | _ => []

/-- The items of an array. Another value has none. -/
def items : Toml → List Toml
  | array items => items
  | _ => []

/-- The items with room for a place, and that place counted from the start. -/
def withRoom (items : List Toml) (place : Int) : List Toml × Nat :=
  let n := place.natAbs
  if 0 ≤ place then (items ++ List.replicate (n + 1 - items.length) nothing, n)
  else (List.replicate (n - items.length) nothing ++ items, items.length - n)

/-- Changes the part of a value that steps lead to. -/
def change (f : Toml → Toml) : List KeyStep → Toml → Toml
  | [], v => f v
  | .field name :: steps, v =>
    .table (set name (change f steps ((v.fields.lookup name).getD nothing)) v.fields)
  | .item place :: steps, v =>
    let (items, n) := withRoom v.items place
    .array (items.modify n (change f steps))

mutual

/-- A value with another one laid over it. Of two tables the fields are joined. -/
def overlay (v : Toml) : Toml → Toml
  | .table fields => .table (overlayFields v.fields fields)
  | w => w

/-- Fields with others laid over them. -/
def overlayFields (fields : List (String × Toml)) : List (String × Toml) → List (String × Toml)
  | [] => fields
  | (name, w) :: rest =>
    overlayFields (set name (overlay ((fields.lookup name).getD nothing) w) fields) rest

end

/-- The table that gives each of some keys a value, one after the other. -/
def ofKeys (settings : List (String × Toml)) : Toml :=
  settings.foldl (fun v (key, w) => v.change (overlay · w) (KeyStep.ofKey key)) (.table [])

end Toml

end Interlude
