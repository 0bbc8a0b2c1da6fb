import Mathlib
import Interlude.Proofs.Firsts
import Interlude.Proofs.Script.Parts

/-!
# The spots of a script

The spots of a script are put together from the well-formed items of all its spot blocks in the
order of the text; nothing else in a script bears on them. A map stands where it is named first, with
the place that its last item gives, so no map has two spots.
-/

namespace Interlude.Script

variable {spots placed : List Spot} {s spot : Spot}

/-! ### Putting spots together -/

/-- A spot that is put in keeps the maps, or adds its own after them. -/
theorem map_setSpot (spots : List Spot) (spot : Spot) :
    (setSpot spots spot).map (·.map) =
      if spot.map ∈ spots.map (·.map) then spots.map (·.map) else spots.map (·.map) ++ [spot.map] := by
  have hany : (spots.any (·.map == spot.map) = true) ↔ spot.map ∈ spots.map (·.map) := by
    simp only [List.any_eq_true, beq_iff_eq, List.mem_map]
  unfold setSpot
  by_cases h : spot.map ∈ spots.map (·.map)
  · rw [if_pos (hany.mpr h), if_pos h, List.map_map]
    apply List.map_congr_left
    intro s _
    by_cases hs : s.map = spot.map
    · simp only [Function.comp_apply, hs, beq_self_eq_true, if_true]
    · simp only [Function.comp_apply, beq_iff_eq, hs, if_false]
  · rw [if_neg (fun hspot => h (hany.mp hspot)), if_neg h, List.map_append]
    rfl

/-- Putting in a spot repeats no map. -/
theorem nodup_setSpot (h : (spots.map (·.map)).Nodup) (spot : Spot) :
    ((setSpot spots spot).map (·.map)).Nodup := by
  rw [map_setSpot]
  split
  · exact h
  · rename_i hnew
    rw [← List.concat_eq_append]
    exact h.concat hnew

/-- A spot that is put in takes the place of all spots of its map. -/
theorem mem_setSpot_iff : s ∈ setSpot spots spot ↔ s = spot ∨ s ∈ spots ∧ s.map ≠ spot.map := by
  unfold setSpot
  by_cases h : spots.any (·.map == spot.map) = true
  · rw [if_pos h, List.mem_map]
    constructor
    · rintro ⟨old, hold, rfl⟩
      split
      · exact Or.inl rfl
      · rename_i hother
        exact Or.inr ⟨hold, by simpa using hother⟩
    · rintro (rfl | ⟨hs, hne⟩)
      · obtain ⟨old, hold, hmap⟩ := List.any_eq_true.mp h
        exact ⟨old, hold, if_pos hmap⟩
      · exact ⟨s, hs, if_neg (by simpa using hne)⟩
  · have hnew : ∀ old ∈ spots, old.map ≠ spot.map := by simpa using h
    rw [if_neg h, List.mem_append, List.mem_singleton, or_comm]
    exact or_congr_right (iff_self_and.mpr (hnew s))

/-- Spots that are put in one after another repeat no map. -/
theorem nodup_foldl_setSpot (h : (spots.map (·.map)).Nodup) (placed : List Spot) :
    ((placed.foldl setSpot spots).map (·.map)).Nodup := by
  induction placed generalizing spots with
  | nil => exact h
  | cons spot placed ih => exact ih (nodup_setSpot h spot)

/-- After putting in spots there are no spots but the earlier ones and those. -/
theorem mem_foldl_setSpot (h : s ∈ placed.foldl setSpot spots) : s ∈ spots ∨ s ∈ placed := by
  induction placed generalizing spots with
  | nil => exact Or.inl h
  | cons spot placed ih =>
    rcases ih h with h | h
    · rcases mem_setSpot_iff.mp h with rfl | ⟨h, _⟩
      · exact Or.inr List.mem_cons_self
      · exact Or.inl h
    · exact Or.inr (List.mem_cons_of_mem spot h)

/-- Spots that are put in one after another leave every map where it is named first. -/
theorem map_foldl_setSpot (placed : List Spot) :
    (placed.foldl setSpot []).map (·.map) = (placed.map (·.map)).eraseDups := by
  induction placed using List.reverseRecOn with
  | nil => rfl
  | append_singleton placed spot ih =>
    rw [List.foldl_append, List.foldl_cons, List.foldl_nil, map_setSpot, ih, List.map_append,
      List.map_singleton, eraseDups_concat]
    simp only [List.mem_eraseDups]

/-- Spots that are put in one after another leave of every map the last one. -/
theorem find?_reverse_of_mem_foldl_setSpot (h : s ∈ placed.foldl setSpot []) :
    placed.reverse.find? (·.map == s.map) = some s := by
  induction placed using List.reverseRecOn with
  | nil => exact absurd h List.not_mem_nil
  | append_singleton placed spot ih =>
    rw [List.foldl_append, List.foldl_cons, List.foldl_nil] at h
    rw [List.reverse_append, List.reverse_singleton, List.singleton_append]
    rcases mem_setSpot_iff.mp h with rfl | ⟨hold, hmap⟩
    · exact List.find?_cons_of_pos (beq_self_eq_true _)
    · rw [List.find?_cons_of_neg (by simpa using Ne.symm hmap), ih hold]

/-! ### The items of spot blocks -/

/-- The spots that a part gives, in the order of its lines. -/
def Part.placements (part : Part) : List Spot :=
  if part.directive = .spots then part.body.filterMap spot? else []

/-- Following a part puts in its spots and no others. -/
theorem spots_followPart (s : Script) (part : Part) :
    (followPart s part).spots = part.placements.foldl setSpot s.spots := by
  obtain ⟨directive, body⟩ := part
  unfold followPart followLines follow
  simp only [List.filterMap_map, Function.comp_def]
  cases directive with
  | animation guard x y tics once =>
    dsimp only
    split
    · rfl
    · rfl
  | _ => rfl

/-- Following parts puts in their spots and no others. -/
theorem spots_foldl_followPart (s : Script) (parts : List Part) :
    (parts.foldl followPart s).spots = (parts.flatMap Part.placements).foldl setSpot s.spots := by
  induction parts generalizing s with
  | nil => rfl
  | cons part parts ih =>
    rw [List.foldl_cons, ih, spots_followPart, List.flatMap_cons, List.foldl_append]

/-- Over the well-formed items of all spot blocks of a text, whatever stands between them, its spots
have the maps in the order in which they are named first, and of each map the last item. -/
theorem spots_ofText_insertion_ordered (name text : String) :
    (∃ parts, FallsInto (cleanLines text) parts) ∧
      ∀ parts, FallsInto (cleanLines text) parts →
        let placed := parts.flatMap Part.placements
        (ofText name text).spots.map (·.map) = (placed.map (·.map)).eraseDups ∧
          ∀ spot ∈ (ofText name text).spots,
            placed.reverse.find? (·.map == spot.map) = some spot := by
  refine ⟨exists_fallsInto _, fun parts hparts => ?_⟩
  intro placed
  have hspots : (ofText name text).spots = placed.foldl setSpot [] := by
    rw [ofText_eq_foldl_followPart hparts, spots_foldl_followPart]
    rfl
  rw [hspots]
  exact ⟨map_foldl_setSpot placed, fun spot hspot => find?_reverse_of_mem_foldl_setSpot hspot⟩

/-- A map that is named again in a second block, which is not closed, keeps its place before a map
the first item of which is malformed. -/
theorem spots_ofText_two_blocks :
    let text := "Spots\n\x7b\nMap02 1 1\nMap01 two 2\nMap01 3 3\n\x7d\nPic 4 5 Dot\n" ++
      "Spots\n\x7b\nMap02 6 7"
    let parts : List Part :=
      [⟨.spots, ["MAP02 1 1".toList, "MAP01 TWO 2".toList, "MAP01 3 3".toList]⟩,
        ⟨.picture .always 4 5 "DOT", []⟩, ⟨.spots, ["MAP02 6 7".toList]⟩]
    FallsInto (cleanLines text) parts ∧ parts.flatMap Part.placements =
        [⟨"MAP02", 1, 1⟩, ⟨"MAP01", 3, 3⟩, ⟨"MAP02", 6, 7⟩] ∧
      (ofText "INTERA" text).spots.map (·.map) =
          ((parts.flatMap Part.placements).map (·.map)).eraseDups ∧
        ∀ spot ∈ (ofText "INTERA" text).spots,
          (parts.flatMap Part.placements).reverse.find? (·.map == spot.map) = some spot := by
  intro text parts
  have hlines : cleanLines text = "SPOTS".toList :: ['{'] ::
      (["MAP02 1 1".toList, "MAP01 TWO 2".toList, "MAP01 3 3".toList] ++
        ['}'] :: "PIC 4 5 DOT".toList :: "SPOTS".toList :: ['{'] :: ["MAP02 6 7".toList]) := by
    decide +kernel
  have hparts : FallsInto (cleanLines text) parts := by
    rw [hlines]
    refine .closed (by decide +kernel) rfl (by decide +kernel) ?_
    refine .single (by decide +kernel) rfl ?_
    exact .unclosed (by decide +kernel) rfl (by decide +kernel)
  exact ⟨hparts, by decide +kernel, (spots_ofText_insertion_ordered "INTERA" text).2 parts hparts⟩

end Interlude.Script
