import Mathlib
import Interlude.Proofs.Interlevel.Drawings

/-!
# The layers of the spots

The last two layers of a screen mark the visited maps and point to the current one. Both follow one
rule: a map that has a picture of its own for the layer shows it over the whole screen, and any other
is marked at its spot if the script has the images for it. A spot without either is left out, and the
others keep their order and their conditions.
-/

namespace Interlude.Interlevel

variable {α β : Type} {maps : MapTable} {gate : Nat → Condition}
  {picture? : MapRecord → Option String} {frames? : Spot → Option (List Frame)} {spot : Spot}
  {anim : Anim}

/-- The values that the items of a list have, beside the items that have one. -/
theorem forall₂_filter_filterMap (value? : α → Option β) (items : List α) :
    List.Forall₂ (fun a b => value? a = some b) (items.filter fun a => (value? a).isSome)
      (items.filterMap value?) := by
  induction items with
  | nil => exact .nil
  | cons a items ih =>
    cases h : value? a with
    | none => simpa [h] using ih
    | some b => simpa [h] using ih

/-! ### Marks of spots -/

/-- The picture that the last record of a map has. -/
def ownPicture? (maps : MapTable) (picture? : MapRecord → Option String) (map : String) :
    Option String :=
  (maps.declared map).getLast?.bind picture?

/-- The frames of a splat. -/
def splatFrames? (s : Script) (_ : Spot) : Option (List Frame) :=
  s.splat.map fun image => [.infinite image]

/-- The frames of a pointer, which is the second one on the right of the screen. -/
def blinkingFrames? (s : Script) (spot : Spot) : Option (List Frame) :=
  s.pointers.map fun (left, right) =>
    [.fixed (if 260 < spot.x then right else left) pointerShown, .fixed "TNT1A0" pointerHidden]

/-- Whether there is anything to mark a spot with. -/
def isMarked (maps : MapTable) (picture? : MapRecord → Option String)
    (frames? : Spot → Option (List Frame)) (spot : Spot) : Bool :=
  (ownPicture? maps picture? spot.map).isSome || (frames? spot).isSome

/-- An animation marks a spot: it waits for the number of the map, which is zero without a record, and
shows the picture of the map from the corner of the screen, or else the given frames at the spot. -/
structure Marks (maps : MapTable) (gate : Nat → Condition) (picture? : MapRecord → Option String)
    (frames? : Spot → Option (List Frame)) (spot : Spot) (anim : Anim) : Prop where
  conditions_eq :
    anim.conditions = some [gate (((maps.declared spot.map).getLast?.map (·.ordinal)).getD 0)]
  ofPicture : ∀ pic ∈ ownPicture? maps picture? spot.map,
    anim.x = 0 ∧ anim.y = 0 ∧ anim.frames = [.infinite pic]
  atSpot : ownPicture? maps picture? spot.map = none →
    anim.x = spot.x ∧ anim.y = spot.y ∧ frames? spot = some anim.frames

/-- There is an animation exactly for the spots that there is anything to mark with. -/
theorem isSome_spotAnim? (spot : Spot) :
    (spotAnim? maps gate picture? frames? spot).isSome = isMarked maps picture? frames? spot := by
  rw [spotAnim?, isMarked, ownPicture?, ← MapTable.find?_eq_getLast?_declared]
  cases (maps.find? spot.map).bind picture? with
  | none => simp
  | some pic => rfl

/-- The animation for a spot marks it. -/
theorem marks_of_spotAnim? (h : spotAnim? maps gate picture? frames? spot = some anim) :
    Marks maps gate picture? frames? spot anim := by
  have hpicture : (maps.find? spot.map).bind picture? = ownPicture? maps picture? spot.map := by
    rw [ownPicture?, MapTable.find?_eq_getLast?_declared]
  rw [spotAnim?_eq_some_iff, hpicture, ordinalOf_eq] at h
  rcases h with ⟨pic, hpic, rfl⟩ | ⟨hnone, frames, hframes, rfl⟩
  · exact ⟨rfl, by simp [hpic], by simp [hpic]⟩
  · exact ⟨rfl, by simp [hnone], fun _ => ⟨rfl, rfl, hframes⟩⟩

/-! ### Layers -/

/-- A layer marks spots before a map: it has one animation for each spot that there is anything to mark
with, in their order. -/
structure MarksSpots (maps : MapTable) (gate : Nat → Condition)
    (picture? : MapRecord → Option String) (frames? : Spot → Option (List Frame))
    (spots : List Spot) (layer : Layer) : Prop where
  conditions_eq : layer.conditions = some [.entering]
  anims : List.Forall₂ (Marks maps gate picture? frames?)
    (spots.filter (isMarked maps picture? frames?)) layer.anims

/-- The layer of such animations marks its spots. -/
theorem marksSpots_spotAnim? (spots : List Spot) :
    MarksSpots maps gate picture? frames? spots
      ⟨spots.filterMap (spotAnim? maps gate picture? frames?), some [.entering]⟩ where
  conditions_eq := rfl
  anims := by
    have hmarks := forall₂_filter_filterMap (spotAnim? maps gate picture? frames?) spots
    simp only [isSome_spotAnim?] at hmarks
    exact hmarks.imp fun _ _ h => marks_of_spotAnim? h

/-- The layers of a script with spots end with the two of the spots. -/
theorem layersOf_eq_append (maps : MapTable) {s : Script} (hspots : s.spots ≠ []) :
    layersOf maps s =
      (if s.drawings.isEmpty then [] else [drawingLayer maps s]) ++ spotLayers maps s := by
  rw [layersOf, if_neg (by simpa using hspots : ¬ s.spots.isEmpty = true)]

/-- The last two layers of a screen mark the spots of its script, the first of them where maps were
visited and the second where the current map is; a screen has no layers exactly if its script has
neither spots nor drawings. -/
theorem ofScript_marks_spots (maps : MapTable) (music : Option String) (s : Script) :
    ((ofScript maps music s).layers = none ↔ s.spots = [] ∧ s.drawings = []) ∧
      (s.spots ≠ [] → ∃ before splats pointers,
        (ofScript maps music s).layers = some (before ++ [splats, pointers]) ∧
        MarksSpots maps .visited (·.enterPic) (splatFrames? s) s.spots splats ∧
        MarksSpots maps .current (·.exitPic) (blinkingFrames? s) s.spots pointers) := by
  rw [layers_ofScript]
  constructor
  · simp [Script.isEmpty, and_comm]
  · intro hspots
    have hempty : ¬ s.isEmpty = true := by simp [Script.isEmpty, hspots]
    rw [if_neg hempty, layersOf_eq_append maps hspots]
    exact ⟨_, _, _, rfl, marksSpots_spotAnim? s.spots, marksSpots_spotAnim? s.spots⟩

/-- Of three spots, the second for a map with an enter picture and the third for a map without a record,
only the second is marked if there is no splat, and all have pointers, of which the first is the left
one. -/
theorem ofScript_marks_spots_without_splat :
    let maps := MapTable.ofText "map MAP01 \x7b \x7d\nmap map02 \x7b\nenterpic = \"E\"\n\x7d" .declaration
    let s := Script.ofText "INTER"
      "Pointer L R\nSpots\n\x7b\nMap01 260 5\nMAP02 261 6\nMAP09 300 7\n\x7d"
    s.spots ≠ [] ∧ ∃ before splats pointers,
      (ofScript maps none s).layers = some (before ++ [splats, pointers]) ∧
      MarksSpots maps .visited (·.enterPic) (splatFrames? s) s.spots splats ∧
      MarksSpots maps .current (·.exitPic) (blinkingFrames? s) s.spots pointers ∧
      splats.anims = [⟨0, 0, [.infinite "E"], some [.visited 2]⟩] ∧
      pointers.anims =
        [⟨260, 5, [.fixed "L" pointerShown, .fixed "TNT1A0" pointerHidden], some [.current 1]⟩,
          ⟨261, 6, [.fixed "R" pointerShown, .fixed "TNT1A0" pointerHidden], some [.current 2]⟩,
          ⟨300, 7, [.fixed "R" pointerShown, .fixed "TNT1A0" pointerHidden], some [.current 0]⟩] := by
  intro maps s
  have hspots : s.spots ≠ [] := by decide +kernel
  have hanims : (ofScript maps none s).layers.map (·.map Layer.anims) = some ([] ++
      [[⟨0, 0, [.infinite "E"], some [.visited 2]⟩],
        [⟨260, 5, [.fixed "L" pointerShown, .fixed "TNT1A0" pointerHidden], some [.current 1]⟩,
          ⟨261, 6, [.fixed "R" pointerShown, .fixed "TNT1A0" pointerHidden], some [.current 2]⟩,
          ⟨300, 7, [.fixed "R" pointerShown, .fixed "TNT1A0" pointerHidden], some [.current 0]⟩]]) := by
    decide +kernel
  obtain ⟨before, splats, pointers, hlayers, hsplats, hpointers⟩ :=
    (ofScript_marks_spots maps none s).2 hspots
  rw [hlayers, Option.map_some, List.map_append] at hanims
  obtain ⟨-, hlast⟩ := List.append_inj' (Option.some.inj hanims) rfl
  obtain ⟨hfirst, hrest⟩ := List.cons.inj hlast
  exact ⟨hspots, before, splats, pointers, hlayers, hsplats, hpointers, hfirst,
    (List.cons.inj hrest).1⟩

end Interlude.Interlevel
