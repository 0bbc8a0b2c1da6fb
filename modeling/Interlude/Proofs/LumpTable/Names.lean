import Mathlib
import Interlude.LumpTable.Rule

/-!
# What names say

The rules for the name of a lump overlap, and the first one that fits counts. Start markers are neither
end markers nor names of anything else that has a rule, so that outside the folders with a kind they
always open their range. In such a folder only system lumps, sounds and music are not of its kind.
-/

namespace Interlude

/-- The names of the lumps that are known by their names alone, wherever they lie. -/
def systemNames : List String :=
  ["PLAYPAL", "COLORMAP", "ENDOOM", "PNAMES", "GENMIDI", "DMXGUS"]

/-! ### Markers -/

/-- What holds of all start markers holds of a name with an end marker. -/
theorem endMarker?_induction {P : String → String → Prop} (hP : ∀ m ∈ rangeMarkers, P m.1 m.2)
    {name terminator : String} (h : endMarker? name = some terminator) : P name terminator := by
  obtain ⟨before, after, hmarkers, -⟩ := List.lookup_eq_some_iff.mp h
  exact hP (name, terminator) (hmarkers ▸ List.mem_append_right _ List.mem_cons_self)

/-- A marker that closes a range opens none. -/
theorem endMarker?_terminator {name terminator : String} (h : endMarker? name = some terminator) :
    endMarker? terminator = none :=
  endMarker?_induction (P := fun _ terminator => endMarker? terminator = none) (by decide) h

/-- A start marker is neither the name of a lump of a map nor an end marker. -/
theorem not_passed_of_endMarker? {name terminator : String} (h : endMarker? name = some terminator) :
    isGeometry name = false ∧ isEndMarker name = false :=
  endMarker?_induction (P := fun name _ => isGeometry name = false ∧ isEndMarker name = false)
    (by decide) h

namespace Rule

variable {name terminator : String} {patches : List String} {folder : Option String}

/-- What is named like a sound is left alone, in whatever folder it lies. -/
theorem of_isSoundName (hsound : isSoundName name = true) : Rule.of name patches folder = .unparsed := by
  have hother : ∀ other, isSoundName other = false → name ≠ other := by
    rintro _ hother rfl
    simp [hsound] at hother
  simp [Rule.of, hsound, hother "PLAYPAL" (by decide), hother "COLORMAP" (by decide),
    hother "ENDOOM" (by decide), hother "PNAMES" (by decide)]

/-- In a folder with a kind, what is neither a system lump nor named like a sound is of that kind. -/
theorem of_inFolder {kind : RangeKind} (hsystem : name ∉ systemNames)
    (hsound : isSoundName name = false) (hfolder : folder.bind RangeKind.ofFolder? = some kind) :
    Rule.of name patches folder = .inFolder kind := by
  simp only [systemNames, List.mem_cons, List.not_mem_nil, or_false, not_or] at hsystem
  simp [Rule.of, hsystem, hsound, hfolder]

/-- Outside the folders with a kind, a start marker opens its range. -/
theorem of_endMarker? (h : endMarker? name = some terminator)
    (hfolder : folder.bind RangeKind.ofFolder? = none) :
    Rule.of name patches folder = .openRange (.ofMarker name) terminator := by
  obtain ⟨hsystem, hsound⟩ := endMarker?_induction
    (P := fun name _ => name ∉ systemNames ∧ isSoundName name = false) (by decide) h
  simp only [systemNames, List.mem_cons, List.not_mem_nil, or_false, not_or] at hsystem
  simp [Rule.of, hsystem, hsound, hfolder, h]

/-- Only a start marker opens a range, which is its own. -/
theorem eq_of_openRange {kind : RangeKind} (h : Rule.of name patches folder = .openRange kind terminator) :
    endMarker? name = some terminator ∧ kind = .ofMarker name := by
  revert h
  unfold Rule.of
  cases folder.bind RangeKind.ofFolder? with
  | some _ =>
    dsimp only
    split_ifs <;> rintro ⟨⟩
  | none =>
    dsimp only
    cases endMarker? name with
    | none =>
      dsimp only
      split_ifs <;> rintro ⟨⟩
    | some _ =>
      dsimp only
      split_ifs <;> rintro ⟨⟩
      exact ⟨rfl, rfl⟩

/-- Exit screens have one name alone. -/
theorem eq_of_endoom (h : Rule.of name patches folder = .endoom) : name = "ENDOOM" := by
  by_contra hother
  revert h
  unfold Rule.of
  simp only [hother, if_false]
  cases folder.bind RangeKind.ofFolder? with
  | some _ =>
    dsimp only
    split_ifs <;> rintro ⟨⟩
  | none =>
    dsimp only
    cases endMarker? name with
    | none =>
      dsimp only
      split_ifs <;> rintro ⟨⟩
    | some _ =>
      dsimp only
      split_ifs <;> rintro ⟨⟩

end Rule

end Interlude
