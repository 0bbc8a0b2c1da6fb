import Interlude.Json.Basic

/-!
# JSON over several lines

A layout is a JSON value together with the decision which parts of it stand on one line each. The
other arrays and objects have one part to a line, indented by two blanks for each level.
-/

namespace Interlude.JsonValue

/-- A value with the parts of it that stand on one line. -/
inductive Layout where
  | inline (value : JsonValue)
  | array (items : List Layout)
  | object (fields : List (String × Layout))

namespace Layout

/-- A new line at a level of indentation. -/
def newline (level : Nat) : List Char :=
  '\n' :: List.replicate (2 * level) ' '

mutual

/-- The text of a layout at a level of indentation. -/
def render (level : Nat) : Layout → List Char
  | .inline value => line .spaced value
  | .array [] => ['[', ']']
  | .array (item :: items) =>
    '[' :: (newline (level + 1) ++ render (level + 1) item ++ renderItems level items)
  | .object [] => ['{', '}']
  | .object ((name, value) :: fields) =>
    '{' :: (newline (level + 1) ++ quote name ++ [':', ' '] ++ render (level + 1) value ++
      renderFields level fields)

/-- The items after the first one and the end of the array. -/
def renderItems (level : Nat) : List Layout → List Char
  | [] => newline level ++ [']']
  | item :: items =>
    ',' :: (newline (level + 1) ++ render (level + 1) item ++ renderItems level items)

/-- The fields after the first one and the end of the object. -/
def renderFields (level : Nat) : List (String × Layout) → List Char
  | [] => newline level ++ ['}']
  | (name, value) :: fields =>
    ',' :: (newline (level + 1) ++ quote name ++ [':', ' '] ++ render (level + 1) value ++
      renderFields level fields)

end

mutual

/-- The value that is laid out. -/
def value : Layout → JsonValue
  | .inline v => v
  | .array items => .array (values items)
  | .object fields => .object (fieldValues fields)

/-- The values of the items of an array. -/
def values : List Layout → List JsonValue
  | [] => []
  | item :: items => value item :: values items

/-- The values of the fields of an object. -/
def fieldValues : List (String × Layout) → List (String × JsonValue)
  | [] => []
  | (name, v) :: fields => (name, value v) :: fieldValues fields

end

end Layout

end Interlude.JsonValue
