import Interlude.Decimal.Text

/-!
# TOML values

A TOML text is a table of named values. `Draft` is the table while the text is read: it remembers
how a part of it came about, because a part that is complete must not be added to.
-/

namespace Interlude

/-- A TOML value. -/
inductive Toml where
  | text (s : String)
  | integer (n : Int)
  | float (x : Binary64)
  | boolean (b : Bool)
  /-- A date, a time or both, in the usual form. -/
  | moment (s : String)
  | array (items : List Toml)
  | table (fields : List (String × Toml))

namespace Toml

/-- Sets the field with a name. -/
def set (name : String) (x : α) : List (String × α) → List (String × α)
  | [] => [(name, x)]
  | (other, old) :: rest =>
    if other = name then (name, x) :: rest else (other, old) :: set name x rest

/-- How a table came about. -/
inductive Origin where
  /-- It was needed by the header of a table in it, and may still get a header of its own. -/
  | implied
  /-- It has a header. -/
  | header
  /-- It was needed by a dotted key, and may be added to by further ones. -/
  | dotted
  deriving DecidableEq, Repr

/-- A part of a table while it is read. -/
inductive Draft where
  /-- A complete value. -/
  | value (v : Toml)
  | table (origin : Origin) (fields : List (String × Draft))
  /-- Tables with the same header; the last one may be added to. -/
  | tables (items : List (List (String × Draft)))

namespace Draft

mutual

/-- The value of a part. -/
def complete : Draft → Toml
  | .value v => v
  | .table _ fields => .table (completeFields fields)
  | .tables items => .array (completeItems items)

/-- The values of the fields of a table. -/
def completeFields : List (String × Draft) → List (String × Toml)
  | [] => []
  | (name, part) :: rest => (name, complete part) :: completeFields rest

/-- The values of tables with the same header. -/
def completeItems : List (List (String × Draft)) → List Toml
  | [] => []
  | fields :: rest => .table (completeFields fields) :: completeItems rest

end

/-- The fields of a table while it is read. -/
abbrev Fields := List (String × Draft)

/-- Changes the table at the end of a path of headers. Tables on the way that are missing are
implied; of tables with the same header the last one is meant. -/
def within (change : Fields → Option Fields) : (path : List String) → Fields → Option Fields
  | [], fields => change fields
  | name :: path, fields =>
    match fields.lookup name with
    | none => do return set name (.table .implied (← within change path [])) fields
    | some (.table origin inner) => do
      return set name (.table origin (← within change path inner)) fields
    | some (.tables items) => do
      let last ← items.getLast?
      return set name (.tables (items.dropLast ++ [← within change path last])) fields
    | some (.value _) => none

/-- Gives a table a header. -/
def open? (name : String) (fields : Fields) : Option Fields :=
  match fields.lookup name with
  | none => some (set name (.table .header []) fields)
  | some (.table .implied inner) => some (set name (.table .header inner) fields)
  | some _ => none

/-- Adds a table to those with the same header. -/
def append? (name : String) (fields : Fields) : Option Fields :=
  match fields.lookup name with
  | none => some (set name (.tables [[]]) fields)
  | some (.tables items) => some (set name (.tables (items ++ [[]])) fields)
  | some _ => none

/-- Gives a new name a value. The name may lie in tables that have no header of their own; the table
that holds it then counts as one that a dotted key has made. On the way to that table the last one
of tables with the same header may be passed. -/
def assign? (v : Toml) : (key : List String) → Fields → Option Fields
  | [], _ => none
  | [name], fields =>
    match fields.lookup name with
    | none => some (set name (.value v) fields)
    | some _ => none
  | name :: key, fields =>
    let holds := key.length = 1
    match fields.lookup name with
    | none => do return set name (.table .dotted (← assign? v key [])) fields
    | some (.table .header _) => none
    | some (.table origin inner) => do
      let origin := if holds then .dotted else origin
      return set name (.table origin (← assign? v key inner)) fields
    | some (.tables items) => do
      guard ¬holds
      let last ← items.getLast?
      return set name (.tables (items.dropLast ++ [← assign? v key last])) fields
    | some (.value _) => none

end Draft

end Toml

end Interlude
