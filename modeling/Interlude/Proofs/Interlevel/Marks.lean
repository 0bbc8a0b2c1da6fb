import Mathlib
import Interlude.Proofs.Interlevel.Fragments
import Interlude.Proofs.MapTable.Declarations
import Interlude.Proofs.Script.WellFormed

/-!
# The marks of maps

Marks and pointers know their map by its number only. A number that a map has belongs to one map,
and a map has one spot in a script, so a condition on a number above zero stands on one mark at
most, and this mark is at the spot of the map. It is the last definition of the map that gives the
number; a spot whose map has none gets the number zero, which no map has.
-/

namespace Interlude.Interlevel

open MapTable (LastDeclared)

variable {maps : MapTable} {text name scriptText : String} {order : OrdinalOrder} {s : Script}
  {spot : Spot} {anim : Anim} {gate : Nat → Condition} {mark? : Spot → Option Anim} {c : Nat}

/-! ### Conditions of animations -/

/-- Whether a condition is among those of an animation. -/
def Anim.carries (anim : Anim) (condition : Condition) : Bool :=
  (anim.conditions.getD []).contains condition

/-- The layers that are shown before a map only. -/
def Data.enteringLayers (d : Data) : List Layer :=
  (d.layers.getD []).filter fun layer => layer.conditions = some [.entering]

/-- The marks of spots are gated by the number of the map and by nothing else. -/
def GatedBy (maps : MapTable) (gate : Nat → Condition) (mark? : Spot → Option Anim) : Prop :=
  ∀ spot anim, mark? spot = some anim →
    anim.conditions = some [gate (ordinalOf maps spot.map)]

/-- The animations for spots are gated by the condition that they are made with. -/
theorem gatedBy_spotAnim? (maps : MapTable) (gate : Nat → Condition)
    (picture? : MapRecord → Option String) (frames? : Spot → Option (List Frame)) :
    GatedBy maps gate (spotAnim? maps gate picture? frames?) := by
  intro spot anim h
  rcases spotAnim?_eq_some_iff.mp h with ⟨pic, -, rfl⟩ | ⟨-, frames, -, rfl⟩ <;> rfl

/-- The marks of visited maps are gated by the visit. -/
theorem gatedBy_splatAnim? (maps : MapTable) (splat : Option String) :
    GatedBy maps .visited (splatAnim? maps splat) :=
  gatedBy_spotAnim? maps _ _ _

/-- The pointers are gated by the current map. -/
theorem gatedBy_pointerAnim? (maps : MapTable) (pointers : Option (String × String)) :
    GatedBy maps .current (pointerAnim? maps pointers) :=
  gatedBy_spotAnim? maps _ _ _

/-- Of the layers of a screen those of the spots, if there are any, are shown before a map only. -/
theorem enteringLayers_ofScript (maps : MapTable) (music : Option String) (s : Script) :
    (ofScript maps music s).enteringLayers =
      if s.spots.isEmpty then [] else spotLayers maps s := by
  have hdrawn : ([drawingLayer maps s]).filter
      (fun layer => layer.conditions = some [Condition.entering]) = [] := rfl
  have hspots : (spotLayers maps s).filter
      (fun layer => layer.conditions = some [Condition.entering]) = spotLayers maps s := rfl
  rw [Data.enteringLayers, layers_ofScript]
  unfold layersOf Script.isEmpty
  cases hs : s.spots.isEmpty <;> cases hd : s.drawings.isEmpty
  · simp only [Bool.false_and, Bool.false_eq_true, if_false, Option.getD_some, List.filter_append,
      hdrawn, hspots, List.nil_append]
  · simp only [Bool.false_and, Bool.false_eq_true, if_false, if_true, Option.getD_some, hspots,
      List.nil_append]
  · simp only [Bool.and_false, Bool.false_eq_true, if_false, if_true, Option.getD_some, hdrawn,
      List.append_nil]
  · rfl

/-! ### Numbers of spots -/

/-- A mark carries the condition on the number of its spot's map and on no other. -/
theorem GatedBy.carries_iff (hgated : GatedBy maps gate mark?) (hgate : Function.Injective gate)
    (hmark : mark? spot = some anim) :
    anim.carries (gate c) = true ↔ ordinalOf maps spot.map = c := by
  rw [Anim.carries, hgated spot anim hmark, Option.getD_some, List.contains_iff_mem,
    List.mem_singleton, hgate.eq_iff]
  exact eq_comm

/-- The number of a map that is not declared is zero. -/
theorem ordinalOf_eq_zero {map : String}
    (h : ∀ m ∈ maps.maps, Text.sameName m.token map = false) : ordinalOf maps map = 0 := by
  rw [ordinalOf, MapTable.ordinal?, MapTable.find?_eq_none_iff.mpr h]
  rfl

/-- A number above zero is that of a declared map. -/
theorem ordinal?_of_ordinalOf {map : String} (hc : 1 ≤ c) (h : ordinalOf maps map = c) :
    maps.ordinal? map = some c := by
  unfold ordinalOf at h
  cases hordinal : maps.ordinal? map with
  | none =>
    rw [hordinal, Option.getD_none] at h
    omega
  | some n =>
    rw [hordinal, Option.getD_some] at h
    rw [h]

/-- Spots of one script whose maps have the same number above zero are the same. -/
theorem spot_eq_of_ordinalOf {other : Spot} (hmaps : maps.Numbered) (hc : 1 ≤ c)
    (hspot : spot ∈ (Script.ofText name scriptText).spots)
    (hother : other ∈ (Script.ofText name scriptText).spots)
    (h : ordinalOf maps spot.map = c) (h' : ordinalOf maps other.map = c) : spot = other :=
  Script.eq_of_sameName_spots hspot hother
    (hmaps.sameName_of_ordinal? (ordinal?_of_ordinalOf hc h) (ordinal?_of_ordinalOf hc h'))

/-! ### Layers -/

/-- The animations of a layer are the marks of spots in their order, at most one for the number of
a map, and that at the only spot whose map was given the number by its last definition. -/
structure MarksMaps (text : String) (order : OrdinalOrder) (spots : List Spot)
    (gate : Nat → Condition) (mark? : Spot → Option Anim) (layer : Layer) : Prop where
  anims_eq : layer.anims = spots.filterMap mark?
  atMostOne : ∀ c, 1 ≤ c → layer.anims.countP (·.carries (gate c)) ≤ 1
  ofSpot : ∀ c, 1 ≤ c → ∀ anim ∈ layer.anims, anim.carries (gate c) = true →
    ∃ spot ∈ spots, mark? spot = some anim ∧ LastDeclared text order spot.map c ∧
      ∀ other ∈ spots, LastDeclared text order other.map c → other = spot
  undeclared : ∀ spot ∈ spots,
    (∀ m ∈ (MapTable.ofText text order).maps, Text.sameName m.token spot.map = false) →
    ∀ anim, mark? spot = some anim → anim.conditions = some [gate 0]

private theorem countP_le_one {α : Type} {l : List α} {p : α → Bool} (hl : l.Nodup)
    (hp : ∀ a ∈ l, ∀ b ∈ l, p a = true → p b = true → a = b) : l.countP p ≤ 1 := by
  rw [List.countP_eq_length_filter]
  rcases hfilter : l.filter p with _ | ⟨a, _ | ⟨b, rest⟩⟩
  · exact Nat.zero_le 1
  · exact Nat.le_refl 1
  · have hmem : ∀ x ∈ [a, b], x ∈ l ∧ p x = true := by
      intro x hx
      apply List.mem_filter.mp
      rw [hfilter]
      exact List.mem_append_left rest hx
    obtain ⟨ha, hpa⟩ := hmem a List.mem_cons_self
    obtain ⟨hb, hpb⟩ := hmem b (List.mem_cons_of_mem a List.mem_cons_self)
    have hnodup := hl.filter p
    rw [hfilter, List.nodup_cons] at hnodup
    exact absurd (hp a ha b hb hpa hpb ▸ List.mem_cons_self) hnodup.1

/-- Marks that are gated by the numbers of maps make up a layer that tells the maps apart. -/
theorem marksMaps_of_gatedBy (hgate : Function.Injective gate)
    (hgated : GatedBy (MapTable.ofText text order) gate mark?) (name scriptText : String)
    (conditions : Option (List Condition)) :
    MarksMaps text order (Script.ofText name scriptText).spots gate mark?
      ⟨(Script.ofText name scriptText).spots.filterMap mark?, conditions⟩ where
  anims_eq := rfl
  atMostOne := by
    intro c hc
    rw [List.countP_filterMap]
    apply countP_le_one (List.Nodup.of_map _ ((Script.isPlain_ofText name scriptText).nodup))
    have hcarries : ∀ spot, ((mark? spot).map (·.carries (gate c))).getD false = true →
        ordinalOf (MapTable.ofText text order) spot.map = c := by
      intro spot h
      cases hmark : mark? spot with
      | none => rw [hmark] at h; exact absurd h Bool.false_ne_true
      | some anim =>
        rw [hmark] at h
        exact (hgated.carries_iff hgate hmark).mp h
    intro spot hspot other hother h h'
    exact spot_eq_of_ordinalOf (MapTable.numbered_ofText text order) hc hspot hother
      (hcarries spot h) (hcarries other h')
  ofSpot := by
    intro c hc anim hanim hcarries
    obtain ⟨spot, hspot, hmark⟩ := List.mem_filterMap.mp hanim
    have hordinal := (hgated.carries_iff hgate hmark).mp hcarries
    refine ⟨spot, hspot, hmark,
      MapTable.ordinal?_ofText_eq_some_iff.mp (ordinal?_of_ordinalOf hc hordinal), ?_⟩
    intro other hother hlast
    have hother' : ordinalOf (MapTable.ofText text order) other.map = c := by
      rw [ordinalOf, MapTable.ordinal?_ofText_eq_some_iff.mpr hlast]
      rfl
    exact spot_eq_of_ordinalOf (MapTable.numbered_ofText text order) hc hother hspot hother' hordinal
  undeclared := by
    intro spot _ hundeclared anim hmark
    rw [hgated spot anim hmark, ordinalOf_eq_zero hundeclared]

/-- In the screen of a script on the table of a text, a mark of a visited map and a pointer to the
current one each belong to the spot of the map that has the number of their condition, and no map
has two of them. -/
theorem marks_belong_to_their_maps (text : String) (order : OrdinalOrder) (name scriptText : String)
    (music : Option String) :
    let maps := MapTable.ofText text order
    let s := Script.ofText name scriptText
    (∀ m ∈ maps.maps, m.ordinal ≠ 0) ∧
      (∀ map, (∀ m ∈ maps.maps, Text.sameName m.token map = false) → ordinalOf maps map = 0) ∧
      (s.spots = [] ∧ (ofScript maps music s).enteringLayers = [] ∨
        ∃ splats arrows, (ofScript maps music s).enteringLayers = [splats, arrows] ∧
          MarksMaps text order s.spots .visited (splatAnim? maps s.splat) splats ∧
          MarksMaps text order s.spots .current (pointerAnim? maps s.pointers) arrows) := by
  intro maps s
  have hnumbered : maps.Numbered := MapTable.numbered_ofText text order
  refine ⟨fun m hm => hnumbered.ordinal_ne_zero hm, fun map => ordinalOf_eq_zero, ?_⟩
  rw [enteringLayers_ofScript]
  by_cases hspots : s.spots.isEmpty
  · exact Or.inl ⟨List.isEmpty_iff.mp hspots, if_pos hspots⟩
  · rw [if_neg hspots]
    refine Or.inr ⟨_, _, rfl, ?_, ?_⟩
    · apply marksMaps_of_gatedBy _ (gatedBy_splatAnim? maps s.splat)
      intro m n h
      exact (Condition.mk.inj h).2
    · apply marksMaps_of_gatedBy _ (gatedBy_pointerAnim? maps s.pointers)
      intro m n h
      exact (Condition.mk.inj h).2

/-- A map that is declared twice and has two spots, all in different case, has one pointer, to its
second number; a map that is not declared has the number zero. -/
theorem marks_belong_to_their_maps_recased :
    let text := "map MAP01 \x7b \x7d\nmap map01 \x7b \x7d"
    let maps := MapTable.ofText text .declaration
    let s := Script.ofText "INTER" "Pointer A B\nSpots\n\x7b\nMap01 1 2\nmAP01 3 4\nMAP02 5 6\n\x7d"
    ∃ splats arrows, (ofScript maps none s).enteringLayers = [splats, arrows] ∧
      MarksMaps text .declaration s.spots .current (pointerAnim? maps s.pointers) arrows ∧
      arrows.anims.map (·.conditions) = [some [.current 2], some [.current 0]] := by
  intro text maps s
  obtain ⟨_, _, ⟨hspots, _⟩ | ⟨splats, arrows, hlayers, _, harrows⟩⟩ :=
    marks_belong_to_their_maps text .declaration "INTER"
      "Pointer A B\nSpots\n\x7b\nMap01 1 2\nmAP01 3 4\nMAP02 5 6\n\x7d" none
  · have hlength : s.spots.length = 2 := by decide +kernel
    rw [hspots] at hlength
    exact absurd hlength (by decide)
  · refine ⟨splats, arrows, hlayers, harrows, ?_⟩
    rw [harrows.anims_eq]
    decide +kernel

end Interlude.Interlevel
