/-!
# Intermission scripts

A script describes the screen between two maps: a background, pictures and animations on it that
may be shown under a condition only, and the spots of the maps, which are marked with a splat once
a map was visited and with a pointer while it is the next one.
-/

namespace Interlude

/-- When a drawing is shown. -/
inductive Guard where
  | always
  /-- On the way to a map. -/
  | entering (map : String)
  /-- On the way out of a map. -/
  | leaving (map : String)
  /-- After a map was visited. -/
  | visited (map : String)
  deriving DecidableEq, Repr

/-- The map that a guard names. -/
def Guard.map? : Guard → Option String
  | .always => none
  | .entering map => some map
  | .leaving map => some map
  | .visited map => some map

/-- How the patches of a drawing follow each other. -/
inductive Motion where
  /-- They do not. -/
  | still
  /-- Each is shown for a number of tics, over and over or only once. -/
  | moving (tics : Nat) (once : Bool)
  deriving DecidableEq, Repr

/-- Patches at a place of the screen. -/
structure Drawing where
  x : Int
  y : Int
  guard : Guard
  motion : Motion
  patches : List String
  deriving DecidableEq, Repr

/-- The place of a map on the screen. -/
structure Spot where
  map : String
  x : Int
  y : Int
  deriving DecidableEq, Repr

/-- A script. -/
structure Script where
  /-- The name of the lump that holds it. -/
  name : String
  background : Option String
  splat : Option String
  /-- The pointers for spots on the left and on the right of the screen. -/
  pointers : Option (String × String)
  /-- The spots in the order in which their maps are first named. -/
  spots : List Spot
  drawings : List Drawing
  deriving DecidableEq, Repr

namespace Script

/-- The script without any directive. -/
def empty (name : String) : Script where
  name
  background := none
  splat := none
  pointers := none
  spots := []
  drawings := []

/-- The picture that stands for a frame in which nothing is shown. -/
def blankPatch : String := "TNT1A0"

/-- Whether nothing is shown on the background. -/
def isEmpty (s : Script) : Bool :=
  s.spots.isEmpty && s.drawings.isEmpty

/-- The pictures that a script names, each one once, in order of first use. -/
def images (s : Script) : List String :=
  (s.background.toList ++ s.splat.toList ++ s.pointers.toList.flatMap (fun (l, r) => [l, r]) ++
    s.drawings.flatMap Drawing.patches).eraseDups

/-- Puts the spot of a map in the place of an earlier one, or after the others. -/
def setSpot (spots : List Spot) (spot : Spot) : List Spot :=
  if spots.any (·.map == spot.map) then
    spots.map fun s => if s.map == spot.map then spot else s
  else spots ++ [spot]

end Script

end Interlude
