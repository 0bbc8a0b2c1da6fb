import Interlude.Interlevel.Fragments
import Interlude.MapTable.Basic
import Interlude.Script.Basic

/-!
# From scripts to screens

The drawings of a script become a layer, and its spots two more, one with the marks of visited maps
and one with the pointers to the current map, both for the screen before a map. Maps are known by
their numbers in the map table; a map that is not declared has the number 0, which no map has.
-/

namespace Interlude.Interlevel

/-- The number of a map in conditions. -/
def ordinalOf (maps : MapTable) (map : String) : Nat :=
  (maps.ordinal? map).getD 0

/-- The conditions of a guard. -/
def guardConditions (maps : MapTable) : Guard → Option (List Condition)
  | .always => none
  | .entering map => some [.current (ordinalOf maps map), .entering]
  | .leaving map => some [.current (ordinalOf maps map), .leaving]
  | .visited map => some [.visited (ordinalOf maps map)]

/-- The seconds that a patch of a drawing is shown. -/
def patchSeconds : Motion → Binary64
  | .still => Frame.seconds 0
  | .moving tics _ => Frame.seconds tics

/-- Whether the last patch of a drawing stays. -/
def holdsLast : Motion → Bool
  | .still => true
  | .moving _ once => once

/-- The frames of patches, of which the last one may stay. -/
def patchFrames (motion : Motion) : List String → List Frame
  | [] => []
  | [last] => if holdsLast motion then [.infinite last] else [.fixed last (patchSeconds motion)]
  | patch :: rest => .fixed patch (patchSeconds motion) :: patchFrames motion rest

/-- A drawing as an animation. -/
def drawingAnim (maps : MapTable) (d : Drawing) : Anim where
  x := d.x
  y := d.y
  frames := patchFrames d.motion d.patches
  conditions := guardConditions maps d.guard

/-- The layer of the drawings. -/
def drawingLayer (maps : MapTable) (s : Script) : Layer where
  anims := s.drawings.map (drawingAnim maps)
  conditions := none

/-- The animation for a spot: a picture of its map that fills the screen, or frames at the spot. -/
def spotAnim? (maps : MapTable) (gate : Nat → Condition) (picture? : MapRecord → Option String)
    (frames? : Spot → Option (List Frame)) (spot : Spot) : Option Anim :=
  let conditions := some [gate (ordinalOf maps spot.map)]
  match (maps.find? spot.map).bind picture? with
  | some pic => some ⟨0, 0, [.infinite pic], conditions⟩
  | none => (frames? spot).map fun frames => ⟨spot.x, spot.y, frames, conditions⟩

/-- There is an animation for a spot if its map has a picture, or else if there are frames. -/
theorem spotAnim?_eq_some_iff {maps : MapTable} {gate : Nat → Condition}
    {picture? : MapRecord → Option String} {frames? : Spot → Option (List Frame)} {spot : Spot}
    {anim : Anim} :
    spotAnim? maps gate picture? frames? spot = some anim ↔
      (∃ pic, (maps.find? spot.map).bind picture? = some pic ∧
        ⟨0, 0, [.infinite pic], some [gate (ordinalOf maps spot.map)]⟩ = anim) ∨
      ((maps.find? spot.map).bind picture? = none ∧ ∃ frames, frames? spot = some frames ∧
        ⟨spot.x, spot.y, frames, some [gate (ordinalOf maps spot.map)]⟩ = anim) := by
  rw [spotAnim?]
  cases (maps.find? spot.map).bind picture? with
  | none => simp
  | some pic => simp

/-- The mark of a visited map: its enter picture, or the splat. -/
def splatAnim? (maps : MapTable) (splat : Option String) : Spot → Option Anim :=
  spotAnim? maps .visited (·.enterPic) fun _ => splat.map fun image => [.infinite image]

/-- Spots further to the right than this get the pointer for the right side: a pointer is 60 pixels
wide on a screen of 320. -/
def lastLeft : Int := 320 - 60

/-- The seconds that a pointer is shown. -/
def pointerShown : Binary64 := .ofDecimal false ⟨667, -3⟩

/-- The seconds that a pointer is hidden. -/
def pointerHidden : Binary64 := .ofDecimal false ⟨333, -3⟩

/-- A pointer that blinks. -/
def pointerFrames (pointers : String × String) (x : Int) : List Frame :=
  [.fixed (if lastLeft < x then pointers.2 else pointers.1) pointerShown,
    .fixed Script.blankPatch pointerHidden]

/-- The pointer to the current map: its exit picture, or a pointer that blinks. -/
def pointerAnim? (maps : MapTable) (pointers : Option (String × String)) : Spot → Option Anim :=
  spotAnim? maps .current (·.exitPic) fun spot => pointers.map fun p => pointerFrames p spot.x

/-- The layers of the marks and the pointers. -/
def spotLayers (maps : MapTable) (s : Script) : List Layer :=
  [⟨s.spots.filterMap (splatAnim? maps s.splat), some [.entering]⟩,
    ⟨s.spots.filterMap (pointerAnim? maps s.pointers), some [.entering]⟩]

/-- The layers of a script: that of the drawings first, if there are any, then those of the spots. -/
def layersOf (maps : MapTable) (s : Script) : List Layer :=
  (if s.drawings.isEmpty then [] else [drawingLayer maps s]) ++
    (if s.spots.isEmpty then [] else spotLayers maps s)

/-! ### Making a screen -/

/-- Makes the layer of the drawings, if there are any. -/
def makeDrawingLayers (maps : MapTable) (s : Script) : StateM Fragments (List Layer) :=
  if s.drawings.isEmpty then return []
  else do
    let anims ← s.drawings.mapM fun d => Fragments.anim (drawingAnim maps d)
    return [⟨anims, none⟩]

/-- Makes the mark and the pointer at a spot, as far as there are images for them. -/
def makeMarks (maps : MapTable) (s : Script) (spot : Spot) :
    StateM Fragments (Option Anim × Option Anim) := do
  let splat ← (splatAnim? maps s.splat spot).mapM Fragments.anim
  let pointer ← (pointerAnim? maps s.pointers spot).mapM Fragments.anim
  return (splat, pointer)

/-- Makes the layers of the marks and the pointers, if there are any spots. -/
def makeSpotLayers (maps : MapTable) (s : Script) : StateM Fragments (List Layer) :=
  if s.spots.isEmpty then return []
  else do
    let marks ← s.spots.mapM (makeMarks maps s)
    let entering ← Fragments.conditionList [.entering]
    return [⟨marks.filterMap Prod.fst, entering⟩, ⟨marks.filterMap Prod.snd, entering⟩]

/-- Makes the layers of a script. -/
def makeLayers (maps : MapTable) (s : Script) : StateM Fragments (List Layer) := do
  let drawn ← makeDrawingLayers maps s
  let marked ← makeSpotLayers maps s
  return drawn ++ marked

/-- The screen of a script. -/
def ofScript (maps : MapTable) (music : Option String) (s : Script) : Data where
  music
  background := s.background
  layers := if s.isEmpty then none else some ((makeLayers maps s).run .empty).1

/-! ### What is missing -/

/-- What a script refers to or needs and does not find. -/
inductive Warning where
  | undeclaredMap (map : String)
  | noSplat
  | noPointer
  deriving DecidableEq, Repr

/-- The text of a warning about the script of the given name. -/
def Warning.message (name : String) : Warning → String
  | .undeclaredMap map => s!"{name}: map {map} is not declared in mapinfo"
  | .noSplat => s!"{name}: spots without a SPLAT image"
  | .noPointer => s!"{name}: spots without a POINTER image"

/-- The maps that are not in the table, one warning for each place that names one. -/
def undeclared (maps : MapTable) (names : List String) : List Warning :=
  (names.filter fun map => (maps.find? map).isNone).map .undeclaredMap

/-- What is missing for a script: first for its drawings, then for its spots. -/
def warningsOf (maps : MapTable) (s : Script) : List Warning :=
  undeclared maps (s.drawings.filterMap (·.guard.map?)) ++
    if s.spots.isEmpty then []
    else (if s.splat.isNone then [.noSplat] else []) ++
      (if s.pointers.isNone then [.noPointer] else []) ++
      undeclared maps (s.spots.map Spot.map)

end Interlude.Interlevel
