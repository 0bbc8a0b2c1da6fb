import Mathlib
import Interlude.Proofs.Interlevel.Fragments
import Interlude.Proofs.Interlevel.Marks

/-!
# Drawings on the screen

A screen is viewed on the way out of a map or into the next one, with some maps visited before. The
guards of a script are said of maps, the conditions of a screen of numbers, and a map that is not
declared gets the number zero in them. No map that is viewed has this number, so a drawing is shown
when its guard allows it. The frames of a drawing show its patches in their order, each as long as the
drawing says; only the last one may stay.
-/

namespace Interlude

/-- On which side of a map a screen is viewed. -/
inductive Phase where
  | entering
  | leaving
  deriving DecidableEq, Repr

/-- When a screen is viewed: the number of the current map, those of the visited ones, and the side of
the map. -/
structure Viewing where
  current : Nat
  visited : Set Nat
  phase : Phase

variable {maps : MapTable} {map : String} {v : Viewing}

/-- Whether a guard allows a drawing. The last record of a map gives its number, and a map without a
record is neither the current one nor visited. -/
def Guard.Allows (maps : MapTable) (v : Viewing) : Guard → Prop
  | .always => True
  | .entering map =>
    v.phase = .entering ∧ ∃ m ∈ (maps.declared map).getLast?, m.ordinal = v.current
  | .leaving map =>
    v.phase = .leaving ∧ ∃ m ∈ (maps.declared map).getLast?, m.ordinal = v.current
  | .visited map => ∃ m ∈ (maps.declared map).getLast?, m.ordinal ∈ v.visited

/-- How long a patch of a drawing is shown before the next one. -/
def Motion.seconds (motion : Motion) : Binary64 :=
  Interlevel.Frame.seconds (motion.tics?.getD 0)

/-- Whether the last patch of a drawing stays: it does not move, or only once. -/
def Motion.Stays (motion : Motion) : Prop :=
  motion.isOnce = true ∨ motion.tics? = none

instance (motion : Motion) : Decidable motion.Stays :=
  inferInstanceAs (Decidable (_ ∨ _))

namespace Interlevel

/-! ### Conditions -/

/-- Whether a condition holds. -/
def Condition.Holds (v : Viewing) (c : Condition) : Prop :=
  match c.kind with
  | .current => c.param = v.current
  | .visited => c.param ∈ v.visited
  | .leaving => v.phase = .leaving
  | .entering => v.phase = .entering

/-- Whether all conditions of an animation hold. -/
def Anim.IsShown (v : Viewing) (a : Anim) : Prop :=
  ∀ c ∈ a.conditions.getD [], c.Holds v

/-- The number of a map in conditions is that of its last record, if it has one, and else zero. -/
theorem ordinalOf_eq (maps : MapTable) (map : String) :
    ordinalOf maps map = ((maps.declared map).getLast?.map (·.ordinal)).getD 0 := by
  rw [ordinalOf, MapTable.ordinal?, MapTable.find?_eq_getLast?_declared]

/-- A property of numbers that zero does not have is one of the number of a map only if it is one of
that of its last record. -/
theorem ordinalOf_iff {P : Nat → Prop} (hzero : ¬ P 0) :
    P (ordinalOf maps map) ↔ ∃ m ∈ (maps.declared map).getLast?, P m.ordinal := by
  rw [ordinalOf_eq]
  cases (maps.declared map).getLast? with
  | none => simp [hzero]
  | some m => simp

/-- The conditions of a guard hold exactly if it allows a drawing. -/
theorem holds_guardConditions_iff (hcurrent : 1 ≤ v.current) (hvisited : ∀ n ∈ v.visited, 1 ≤ n)
    (guard : Guard) :
    (∀ c ∈ (guardConditions maps guard).getD [], c.Holds v) ↔ guard.Allows maps v := by
  have hcurrent (map : String) : ordinalOf maps map = v.current ↔
      ∃ m ∈ (maps.declared map).getLast?, m.ordinal = v.current :=
    ordinalOf_iff (P := (· = v.current)) (by omega)
  have hvisited (map : String) : ordinalOf maps map ∈ v.visited ↔
      ∃ m ∈ (maps.declared map).getLast?, m.ordinal ∈ v.visited :=
    ordinalOf_iff (P := (· ∈ v.visited)) fun h => absurd (hvisited 0 h) (by decide)
  cases guard with
  | always => simp [guardConditions, Guard.Allows]
  | entering map =>
    rw [Guard.Allows, ← hcurrent, and_comm]
    simp [guardConditions, Condition.Holds, Condition.current, Condition.entering]
  | leaving map =>
    rw [Guard.Allows, ← hcurrent, and_comm]
    simp [guardConditions, Condition.Holds, Condition.current, Condition.leaving]
  | visited map =>
    rw [Guard.Allows, ← hvisited]
    simp [guardConditions, Condition.Holds, Condition.visited]

/-! ### Frames -/

/-- Frames show a motion: each for the time between two patches, and the last one, if it stays, without
an end. -/
structure Times (motion : Motion) (frames : List Frame) : Prop where
  before_last : ∀ f ∈ frames.dropLast, f.kind = .fixed ∧ f.duration = motion.seconds
  last : ∀ f ∈ frames.getLast?,
    if motion.Stays then f.kind = .infinite ∧ f.duration = .zero
    else f.kind = .fixed ∧ f.duration = motion.seconds
  unbounded : ∀ f ∈ frames, f.maxDuration = 0

/-- The frames of patches show these patches. -/
theorem map_image_patchFrames (motion : Motion) (patches : List String) :
    (patchFrames motion patches).map Frame.image = patches := by
  induction patches with
  | nil => rfl
  | cons patch rest ih =>
    cases rest with
    | nil =>
      rw [patchFrames]
      split <;> rfl
    | cons next rest =>
      rw [patchFrames, List.map_cons, ih]
      · rfl
      · exact List.cons_ne_nil next rest

/-- The seconds of a patch are those of the motion. -/
theorem patchSeconds_eq (motion : Motion) : patchSeconds motion = motion.seconds := by
  cases motion <;> rfl

/-- The last patch is held exactly if it stays. -/
theorem holdsLast_iff {motion : Motion} : holdsLast motion = true ↔ motion.Stays := by
  cases motion <;> simp [holdsLast, Motion.Stays, Motion.isOnce, Motion.tics?]

/-- The frames of patches show the motion. -/
theorem times_patchFrames (motion : Motion) (patches : List String) :
    Times motion (patchFrames motion patches) := by
  fun_induction patchFrames motion patches with
  | case1 => constructor <;> simp
  | case2 last h =>
    refine ⟨List.forall_mem_nil _, fun f hf => ?_, List.forall_mem_singleton.mpr rfl⟩
    obtain rfl := Option.some.inj hf
    rw [if_pos (holdsLast_iff.mp h)]
    exact ⟨rfl, rfl⟩
  | case3 last h =>
    refine ⟨List.forall_mem_nil _, fun f hf => ?_, List.forall_mem_singleton.mpr rfl⟩
    obtain rfl := Option.some.inj hf
    rw [if_neg fun hstays => h (holdsLast_iff.mpr hstays)]
    exact ⟨rfl, patchSeconds_eq motion⟩
  | case4 patch rest hrest ih =>
    have hne : patchFrames motion rest ≠ [] := by
      intro hnil
      have himages := map_image_patchFrames motion rest
      rw [hnil] at himages
      exact hrest himages.symm
    refine ⟨?_, ?_, List.forall_mem_cons.mpr ⟨rfl, ih.unbounded⟩⟩
    · rw [List.dropLast_cons_of_ne_nil hne]
      exact List.forall_mem_cons.mpr ⟨⟨rfl, patchSeconds_eq motion⟩, ih.before_last⟩
    · rw [List.getLast?_cons_of_ne_nil hne]
      exact ih.last

/-! ### Layers -/

/-- An animation shows a drawing in a state of viewing: at its place, with its patches, whenever its
guard allows it, and for the times of its motion. -/
structure Shows (maps : MapTable) (v : Viewing) (d : Drawing) (a : Anim) : Prop where
  x_eq : a.x = d.x
  y_eq : a.y = d.y
  images_eq : a.frames.map Frame.image = d.patches
  isShown_iff : a.IsShown v ↔ d.guard.Allows maps v
  times : Times d.motion a.frames

/-- The animation of a drawing shows it. -/
theorem shows_drawingAnim (hcurrent : 1 ≤ v.current) (hvisited : ∀ n ∈ v.visited, 1 ≤ n)
    (d : Drawing) : Shows maps v d (drawingAnim maps d) where
  x_eq := rfl
  y_eq := rfl
  images_eq := map_image_patchFrames d.motion d.patches
  isShown_iff := holds_guardConditions_iff hcurrent hvisited d.guard
  times := times_patchFrames d.motion d.patches

/-- The first layer of a script with drawings has no conditions of its own and one animation for each
drawing, in their order. -/
theorem layersOf_eq_cons (maps : MapTable) {s : Script} (hdrawings : s.drawings ≠ []) :
    layersOf maps s = ⟨s.drawings.map (drawingAnim maps), none⟩ ::
      (if s.spots.isEmpty then [] else spotLayers maps s) := by
  rw [layersOf, if_neg (by simpa using hdrawings)]
  rfl

/-- A screen shows the drawings of its script in their order, each when its guard allows it and with
the times of its motion, whatever fragments the animations share: the layers are those that are made
of the drawings and the spots one by one. -/
theorem ofScript_shows_drawings (maps : MapTable) (music : Option String) (s : Script) (v : Viewing)
    (hcurrent : 1 ≤ v.current) (hvisited : ∀ n ∈ v.visited, 1 ≤ n) :
    ((ofScript maps music s).layers = if s.isEmpty then none else some (layersOf maps s)) ∧
      (s.drawings ≠ [] → ∃ layer others, (ofScript maps music s).layers = some (layer :: others) ∧
        layer.conditions = none ∧ List.Forall₂ (Shows maps v) s.drawings layer.anims) := by
  refine ⟨layers_ofScript maps music s, fun hdrawings => ?_⟩
  have hempty : ¬ s.isEmpty = true := by simp [Script.isEmpty, hdrawings]
  rw [layers_ofScript, if_neg hempty, layersOf_eq_cons maps hdrawings]
  refine ⟨_, _, rfl, rfl, ?_⟩
  rw [List.forall₂_map_right_iff, List.forall₂_same]
  exact fun d _ => shows_drawingAnim hcurrent hvisited d

/-- Before the second map, a drawing for it, whose name is written in another case, is shown; one for a
map that was visited is not shown if no such map is declared. -/
theorem ofScript_shows_drawings_recased :
    let maps := MapTable.ofText "map MAP01 \x7b \x7d\nmap Map02 \x7b \x7d" .declaration
    let s := Script.ofText "INTER"
      "IfEntering mAP02 Animation 1 2 35 Once\n\x7b\nA\nA\n\x7d\nIfVisited MAP09 Pic 3 4 A"
    let v : Viewing := ⟨2, {1}, .entering⟩
    (1 ≤ v.current ∧ ∀ n ∈ v.visited, 1 ≤ n) ∧
      s.drawings = [⟨1, 2, .entering "MAP02", .moving 35 true, ["A", "A"]⟩,
        ⟨3, 4, .visited "MAP09", .still, ["A"]⟩] ∧
      ∃ layer others, (ofScript maps none s).layers = some (layer :: others) ∧
        layer.conditions = none ∧ List.Forall₂ (Shows maps v) s.drawings layer.anims ∧
        layer.anims.map (·.conditions) = [some [.current 2, .entering], some [.visited 0]] := by
  intro maps s v
  have hcurrent : 1 ≤ v.current := by decide
  have hvisited : ∀ n ∈ v.visited, 1 ≤ n := by simp [v]
  have hdrawings : s.drawings = [⟨1, 2, .entering "MAP02", .moving 35 true, ["A", "A"]⟩,
      ⟨3, 4, .visited "MAP09", .still, ["A"]⟩] := by decide +kernel
  have hlayers : (ofScript maps none s).layers.map (fun layers =>
      layers.map fun layer => layer.anims.map (·.conditions)) =
        some [[some [.current 2, .entering], some [.visited 0]]] := by decide +kernel
  obtain ⟨layer, others, hlayer, hconditions, hshows⟩ :=
    (ofScript_shows_drawings maps none s v hcurrent hvisited).2 (by rw [hdrawings]; simp)
  rw [hlayer] at hlayers
  exact ⟨⟨hcurrent, hvisited⟩, hdrawings, layer, others, hlayer, hconditions, hshows,
    (List.cons.inj (Option.some.inj hlayers)).1⟩

end Interlevel

end Interlude
