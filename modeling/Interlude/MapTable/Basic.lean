import Interlude.Text.Word

/-!
# The map table

The maps of a game in order, each with its number, the pictures and scripts that are shown around
it, and where the player goes from it. Maps are looked up by their token without regard to case.
-/

namespace Interlude

/-- A map of the game. -/
structure MapRecord where
  /-- The place in the table, counted from 1. -/
  ordinal : Nat
  /-- The token by which scripts and other maps refer to it. -/
  token : String
  /-- The picture with the title of the level. -/
  levelPic : Option String
  /-- The script of the screen that is shown before the map. -/
  enterScript : Option String
  /-- The script of the screen that is shown after it. -/
  exitScript : Option String
  /-- A picture that fills the screen in place of the mark of a visited map. -/
  enterPic : Option String
  /-- A picture that fills the screen in place of the pointer. -/
  exitPic : Option String
  /-- The picture that ends the game after this map. -/
  endPic : Option String
  /-- The next map, where it is not just the one that follows. -/
  next : Option String
  /-- The map behind the secret exit. -/
  secretNext : Option String
  music : Option String
  deriving DecidableEq, Repr

/-- The maps of a game in the order of their numbers. -/
structure MapTable where
  maps : List MapRecord
  deriving DecidableEq, Repr

namespace MapTable

/-- The last map with a token, whatever the case of its letters. -/
def find? (t : MapTable) (token : String) : Option MapRecord :=
  t.maps.reverse.find? fun m => Text.sameName m.token token

/-- The number of the last map with a token. -/
def ordinal? (t : MapTable) (token : String) : Option Nat :=
  (t.find? token).map (·.ordinal)

/-- The end picture of the last map that has one. -/
def endPicture? (t : MapTable) : Option String :=
  t.maps.reverse.findSome? (·.endPic)

/-- The scripts of the maps, each one once, in the order of their names. -/
def scripts (t : MapTable) : List String :=
  ((t.maps.flatMap fun m => [m.enterScript, m.exitScript].filterMap id).eraseDups).mergeSort
    fun a b => !decide (b < a)

end MapTable

/-- The order that the numbers of the maps follow. -/
inductive OrdinalOrder where
  /-- The order in which the maps are declared. -/
  | declaration
  /-- The order of their tokens in upper case; equal tokens stay as declared. -/
  | sortedByToken
  deriving DecidableEq, Repr

/-- The order that a word names, whatever its case. -/
def OrdinalOrder.ofWord? (word : String) : Option OrdinalOrder :=
  match Text.lower word with
  | "declaration" => some .declaration
  | "sorted_by_token" => some .sortedByToken
  | "sorted" => some .sortedByToken
  | _ => none

/-- The text for a word that names no order. -/
def OrdinalOrder.unknownMessage (word : String) : String :=
  s!"unknown ordinal order '{word}', expected 'declaration' or 'sorted_by_token'"

end Interlude
