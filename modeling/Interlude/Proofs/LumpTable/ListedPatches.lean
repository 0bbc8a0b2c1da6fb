import Mathlib
import Interlude.Proofs.LumpTable.Brackets
import Interlude.Proofs.LumpTable.PassedOver
import Interlude.Proofs.Picture.Decoding
import Interlude.Proofs.Text.LetterCase

/-!
# Patches that are listed

A picture whose name is in a list of patches is a patch, in a range of patches and outside every range.
The list is kept in upper case. In a range the name is put in upper case as well before it is looked for;
outside it is looked for as it stands, so that a name with a lower-case letter is never found there.
-/

namespace Interlude

/-! ### Names -/

/-- Characters up to the digits are the same in upper case. -/
theorem toUpper_eq_self_of_le {c : Char} (h : c ≤ '9') : c.toUpper = c := by
  refine Char.toUpper_eq_of_not_isLower fun hlower => ?_
  have hletter : 'a' ≤ c := of_decide_eq_true (Bool.and_eq_true_iff.mp hlower).1
  exact absurd (hletter.trans h) (by decide)

/-- Digits have no case. -/
theorem toUpper_eq_self_of_isDigit {c : Char} (h : c.isDigit = true) : c.toUpper = c := by
  rw [Char.isDigit, Bool.and_eq_true, decide_eq_true_eq, decide_eq_true_eq] at h
  exact toUpper_eq_self_of_le h.2

/-- The name of a map has no lower-case letter. -/
theorem isUpper_of_isMapName {name : String} (h : isMapName name = true) :
    Text.IsUpper name.toList := by
  unfold isMapName at h
  split at h
  · rename_i e m hname
    simp only [Bool.and_eq_true, decide_eq_true_eq] at h
    obtain ⟨⟨⟨-, he⟩, -⟩, hm⟩ := h
    have he := toUpper_eq_self_of_le (he.trans (by decide))
    have hm := toUpper_eq_self_of_le hm
    simp [hname, Text.IsUpper, he, hm]
  · rename_i a b hname
    simp only [Bool.and_eq_true] at h
    have ha := toUpper_eq_self_of_isDigit h.1.1
    have hb := toUpper_eq_self_of_isDigit h.1.2
    simp [hname, Text.IsUpper, ha, hb]
  · contradiction

/-- The name of a demo has no lower-case letter. -/
theorem isUpper_of_isDemoName {name : String} (h : isDemoName name = true) :
    Text.IsUpper name.toList := by
  unfold isDemoName at h
  split at h
  · rename_i d hname
    have hd := toUpper_eq_self_of_isDigit h
    simp [hname, Text.IsUpper, hd]
  · contradiction

namespace Rule

variable {name : String} {patches : List String} {folder : Option String}

/-- Outside the folders with a kind, a listed name that is no system lump, no sound and no marker is that
of a patch. -/
theorem of_listed (hsystem : name ∉ systemNames) (hsound : isSoundName name = false)
    (hfolder : folder.bind RangeKind.ofFolder? = none) (hmarker : endMarker? name = none)
    (hlisted : patches.contains name = true) : Rule.of name patches folder = .patch := by
  simp only [systemNames, List.mem_cons, List.not_mem_nil, or_false, not_or] at hsystem
  simp only [Rule.of, hsystem, hsound, hfolder, hmarker, hlisted]
  simp

/-- There a name with a lower-case letter that is not listed says nothing else, for the names of maps,
demos and lists of textures have no such letter. -/
theorem of_lowerCase (hsystem : name ∉ systemNames) (hsound : isSoundName name = false)
    (hfolder : folder.bind RangeKind.ofFolder? = none) (hmarker : endMarker? name = none)
    (hlisted : patches.contains name = false) (hupper : Text.upper name ≠ name) :
    Rule.of name patches folder = .other := by
  have hmap : isMapName name = false :=
    Bool.eq_false_iff.mpr fun hmap => hupper (Text.upper_eq_self (isUpper_of_isMapName hmap))
  have hdemo : isDemoName name = false :=
    Bool.eq_false_iff.mpr fun hdemo => hupper (Text.upper_eq_self (isUpper_of_isDemoName hdemo))
  have htexture : ¬ (name = "TEXTURE1" ∨ name = "TEXTURE2") := by
    rintro (rfl | rfl)
    · exact hupper (by decide +kernel)
    · exact hupper (by decide +kernel)
  simp only [systemNames, List.mem_cons, List.not_mem_nil, or_false, not_or] at hsystem
  simp only [Rule.of, hsystem, hsound, hfolder, hmarker, hlisted, hmap, hdemo, htexture]
  simp

end Rule

namespace Sorting

variable {a : Archive} {index : Nat} {s : Sorting}

/-- Every open range waits for an end marker. -/
theorem Reached.isEndMarker_terminator {rest : List LumpEntry} (h : Reached a s index rest) :
    ∀ range ∈ s.ranges, isEndMarker range.terminator = true := by
  induction h with
  | start => exact fun range hrange => absurd hrange List.not_mem_nil
  | @next s index e following _ ih =>
    have heffect := effect_visit a index s e following
    generalize (s.visit a index e following).1 = s' at heffect ⊢
    cases heffect with
    | passed => exact ih
    | ended hranges _ => exact fun range hrange => ih range (hranges ▸ List.mem_cons_of_mem _ hrange)
    | @opened terminator hmarker =>
      have hend : isEndMarker terminator = true :=
        endMarker?_induction (P := fun _ terminator => isEndMarker terminator = true) (by decide) hmarker
      exact List.forall_mem_cons.mpr ⟨hend, ih⟩
    | filed _ => exact (ranges_fileLump a index s e.name _).symm ▸ ih
    | map => exact ih
    | shortMap _ => exact ih

end Sorting

namespace LumpTable

variable {t : LumpTable} {name : String}

/-- A name is in the list of patches in upper case if it is listed in any case. -/
theorem upper_mem_patchKeys_iff :
    Text.upper name ∈ t.patchKeys ↔ ∃ listed ∈ t.patchNames, Text.sameName listed name = true := by
  simp only [patchKeys, List.mem_map, Text.upper_eq_upper_iff]

/-- A name that is listed in any case is found as it stands if it is in upper case. -/
theorem mem_patchKeys_iff (hlisted : ∃ listed ∈ t.patchNames, Text.sameName listed name = true) :
    name ∈ t.patchKeys ↔ Text.upper name = name := by
  constructor
  · intro hkey
    obtain ⟨listed, -, rfl⟩ := List.mem_map.mp hkey
    refine Text.upper_eq_self ?_
    rw [Text.toList_upper]
    exact Text.isUpper_map_toUpper _
  · intro hupper
    exact hupper ▸ upper_mem_patchKeys_iff.mpr hlisted

/-- So outside the folders with a kind, it is that of a patch if it is in upper case. -/
theorem rule_of_listed {folder : Option String} (hsystem : name ∉ systemNames)
    (hsound : isSoundName name = false) (hfolder : folder.bind RangeKind.ofFolder? = none)
    (hmarker : endMarker? name = none)
    (hlisted : ∃ listed ∈ t.patchNames, Text.sameName listed name = true) :
    Rule.of name t.patchKeys folder = if Text.upper name = name then .patch else .other := by
  have hkey := mem_patchKeys_iff hlisted
  split
  · rename_i hupper
    exact Rule.of_listed hsystem hsound hfolder hmarker (List.contains_iff_mem.mpr (hkey.mpr hupper))
  · rename_i hupper
    refine Rule.of_lowerCase hsystem hsound hfolder hmarker ?_ hupper
    rw [Bool.eq_false_iff]
    exact fun hfound => hupper (hkey.mp (List.contains_iff_mem.mp hfound))

end LumpTable

/-! ### Pictures -/

namespace Content

variable {bytes : ByteArray} {p : Picture}

/-- A picture under a listed name is a patch. -/
theorem ofPatch_of_picture (h : Picture.decode? bytes = some p) : ofPatch bytes = .picture .patch p := by
  rw [ofPatch, h]

/-- A picture under a name that says nothing is a graphic, unless it is a picture file. -/
theorem ofBytes_of_picture (h : Picture.decode? bytes = some p) :
    ofBytes bytes = if Png.isFile bytes then .png bytes else .picture .graphic p := by
  rw [ofBytes, h]

/-- A picture in a range of patches is a patch, unless it is a picture file. -/
theorem ofRange_of_picture (h : Picture.decode? bytes = some p) :
    ofRange .patch bytes = if Png.isFile bytes then .png bytes else .picture .patch p := by
  simp only [ofRange, h]
  rfl

end Content

/-- A lump of a WAD has as many bytes as its record says. -/
theorem Wad.size_of_lump {w : Wad} {index : Nat} {e : LumpEntry} {bytes : ByteArray}
    (he : w.entries[index]? = some e) (h : w.lump index = .ok bytes) : bytes.size = e.size.toNat := by
  rw [Wad.lump, he] at h
  dsimp only at h
  split at h
  · contradiction
  · obtain rfl := Except.ok.inj h
    rw [Wad.slice, ByteArray.size_extract]
    omega

open Sorting in
/-- A picture in a WAD, under a new name that is in a list of patches, up to the case of letters, and that
no earlier rule is for. In an open range of patches it is a patch, unless it starts like a picture file,
and then it is kept as such a file. Outside every range it is a patch if its name has no lower-case
letter. If the name has one, it is not looked for in upper case there, as it is in a range, so that the
picture is what it would be if it were not listed. -/
theorem Archive.sorted_listed_patch (w : Wad) (fallback : Option Palette) {s : Sorting} {index : Nat}
    {e : LumpEntry} {following : List LumpEntry} {bytes : ByteArray} {p : Picture}
    (hreached : Reached (.wad w) s index (e :: following))
    (hlisted : ∃ listed ∈ s.table.patchNames, Text.sameName listed e.name = true)
    (hnew : s.table.isFiled e.name = false) (hname : isPassedOver e.name = false)
    (hmarker : endMarker? e.name = none) (hsystem : e.name ∉ systemNames)
    (hsound : isSoundName e.name = false) (hlump : w.lump index = .ok bytes)
    (hpicture : Picture.decode? bytes = some p) :
    let t := ((Archive.wad w).sorted fallback).table
    (s.ranges = [] →
      t.contentAt? index = some (
        if Text.upper e.name = e.name then .picture .patch p
        else if Png.isFile bytes then .png bytes
        else .picture .graphic p) ∧
      (t.categoryAt? index = some (.image .patch) ↔ Text.upper e.name = e.name)) ∧
    (∀ range outer, s.ranges = range :: outer → range.kind = .patch →
      t.contentAt? index = some (if Png.isFile bytes then .png bytes else .picture .patch p) ∧
      (t.categoryAt? index = some (.image .patch) ↔ Png.isFile bytes = false)) := by
  intro t
  obtain ⟨hgeometry, hend⟩ : isGeometry e.name = false ∧ isEndMarker e.name = false := by
    simpa [isPassedOver] using hname
  have hbytes : (Archive.wad w).lump index = .ok bytes := hlump
  have hplace : t.contentAt? index = s.table.find? s.ranges (.wad w) index e := hreached.contentAt?
  constructor
  · intro hranges
    have hcontent : t.contentAt? index = some (
        if Text.upper e.name = e.name then .picture .patch p
        else if Png.isFile bytes then .png bytes
        else .picture .graphic p) := by
      rw [hplace, hranges]
      refine LumpTable.findOutside?_eq_some_iff.mpr ⟨hnew, hgeometry, hend, ?_⟩
      rw [LumpTable.rule_of_listed hsystem hsound rfl hmarker hlisted, hbytes]
      split
      · exact congrArg some (Content.ofPatch_of_picture hpicture)
      · exact congrArg some (Content.ofBytes_of_picture hpicture)
    refine ⟨hcontent, ?_⟩
    rw [LumpTable.categoryAt?_eq_map, hcontent]
    by_cases hupper : Text.upper e.name = e.name
    · simp [hupper, Content.category]
    · cases Png.isFile bytes <;> simp [hupper, Content.category]
  · intro range outer hranges hkind
    have hstop : range.terminator ≠ e.name := by
      intro hstop
      have hwaits := hreached.isEndMarker_terminator range (hranges ▸ List.mem_cons_self)
      rw [hstop, hend] at hwaits
      contradiction
    have hsize : e.size ≠ 0 := by
      intro hzero
      have hpos := Picture.size_pos_of_decode? hpicture
      rw [Wad.size_of_lump hreached.getElem? hlump, hzero] at hpos
      exact absurd hpos (by decide)
    have hkey : s.table.patchKeys.contains (Text.upper e.name) = true :=
      List.contains_iff_mem.mpr (LumpTable.upper_mem_patchKeys_iff.mpr hlisted)
    have hcontent : t.contentAt? index =
        some (if Png.isFile bytes then .png bytes else .picture .patch p) := by
      rw [hplace, hranges]
      refine LumpTable.find?_cons_eq_some_iff.mpr ⟨hstop, hmarker, ?_⟩
      refine LumpTable.findInside?_eq_some_iff.mpr ⟨hsize, hnew, fun _ => hkey, bytes, hlump, ?_⟩
      rw [hkind, Content.ofRange_of_picture hpicture]
    refine ⟨hcontent, ?_⟩
    rw [LumpTable.categoryAt?_eq_map, hcontent]
    cases Png.isFile bytes <;> simp [Content.category]

/-- A list of one patch, and a picture of one pixel that is transparent. -/
def Wad.listedPatch (entries : List LumpEntry) : Wad where
  data := ⟨#[1, 0, 0, 0, 87, 65, 76, 76, 0, 0, 0, 0, 1, 0, 1, 0, 0, 0, 0, 0, 12, 0, 0, 0, 255]⟩
  entries := ⟨"PNAMES", 0, 12⟩ :: entries

open Sorting in
/-- A listed picture outside every range and one in a range of patches, in another case. -/
theorem Archive.sorted_listed_patch_twice :
    let w := Wad.listedPatch
      [⟨"WALL", 12, 13⟩, ⟨"P_START", 0, 0⟩, ⟨"wall", 12, 13⟩, ⟨"P_END", 0, 0⟩]
    let t := ((Archive.wad w).sorted none).table
    t.patchNames = ["WALL"] ∧ t.categoryAt? 1 = some (.image .patch) ∧
      t.categoryAt? 3 = some (.image .patch) := by
  intro w t
  have hpicture : Picture.decode? ⟨#[1, 0, 1, 0, 0, 0, 0, 0, 12, 0, 0, 0, 255]⟩ =
      some ⟨1, 1, 0, 0, []⟩ := by decide +kernel
  have houtside : Reached (.wad w) (before (.wad w) 1) 1 (⟨"WALL", 12, 13⟩ :: _) :=
    reached_of_not_isGeometry rfl (by decide)
  have hinside : Reached (.wad w) (before (.wad w) 3) 3 (⟨"wall", 12, 13⟩ :: _) :=
    reached_of_not_isGeometry rfl (by decide)
  obtain ⟨hfirst, -⟩ := Archive.sorted_listed_patch w none houtside (by decide +kernel)
    (by decide +kernel) (by decide) (by decide) (by decide) (by decide) (by decide +kernel) hpicture
  obtain ⟨-, hsecond⟩ := Archive.sorted_listed_patch w none hinside (by decide +kernel)
    (by decide +kernel) (by decide) (by decide) (by decide) (by decide) (by decide +kernel) hpicture
  have hnames : t.patchNames = ["WALL"] := by
    have htable : t = (before (.wad w) 5).table := table_sorted (.wad w) none
    rw [htable]
    decide +kernel
  exact ⟨hnames, (hfirst (by decide +kernel)).2.mpr (by decide +kernel),
    (hsecond ⟨.patch, "P_END"⟩ [] (by decide +kernel) rfl).2.mpr (by decide +kernel)⟩

open Sorting in
/-- A listed picture whose name has lower-case letters is no patch outside every range, although it is
one in a range of patches. -/
theorem Archive.sorted_misses_lower_case_patch :
    let e : LumpEntry := ⟨"wall", 12, 13⟩
    let outside := Archive.wad (Wad.listedPatch [e])
    let inside := Archive.wad (Wad.listedPatch [⟨"P_START", 0, 0⟩, e, ⟨"P_END", 0, 0⟩])
    (before outside 1).table.patchNames = ["WALL"] ∧ Text.sameName "WALL" e.name = true ∧
      (before outside 1).table.isFiled e.name = false ∧ (before outside 1).ranges = [] ∧
      isPassedOver e.name = false ∧ endMarker? e.name = none ∧ e.name ∉ systemNames ∧
      isSoundName e.name = false ∧
      (outside.lump 1).toOption.bind Picture.decode? = some ⟨1, 1, 0, 0, []⟩ ∧
      (outside.sorted none).table.categoryAt? 1 = some (.image .graphic) ∧
      (inside.sorted none).table.categoryAt? 2 = some (.image .patch) := by
  intro e outside inside
  have houtside : (outside.sorted none).table = (before outside 2).table := table_sorted outside none
  have hinside : (inside.sorted none).table = (before inside 4).table := table_sorted inside none
  rw [houtside, hinside]
  decide +kernel

end Interlude
