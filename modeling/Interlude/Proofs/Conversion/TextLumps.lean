import Mathlib
import Interlude.Proofs.Conversion.Beside
import Interlude.Proofs.LumpTable.PassedOver
import Interlude.Proofs.Picture.Texts

/-!
# Where texts are found

Of a lump whose name says nothing the bytes decide what it is. Those of a text are no picture, so that the
table keeps them as they are, and that is where a conversion looks for the declarations of the maps and
for the scripts.
-/

namespace Interlude

/-- Bytes that are no picture are kept as they are, unless they are a picture file. -/
theorem Content.ofBytes_of_none {bytes : ByteArray} (h : Picture.decode? bytes = none) :
    ofBytes bytes = if Png.isFile bytes then .png bytes else .raw bytes := by
  rw [ofBytes, h]

open Sorting in
/-- A lump outside every range whose name is new and says nothing is what its bytes are. -/
theorem Sorting.Reached.contentAt?_of_other {a : Archive} {s : Sorting} {index : Nat} {e : LumpEntry}
    {following : List LumpEntry} {bytes : ByteArray} (h : Reached a s index (e :: following))
    (hranges : s.ranges = []) (hnew : s.table.isFiled e.name = false)
    (hname : isPassedOver e.name = false) (hrule : Rule.of e.name s.patches (a.folder? index) = .other)
    (hlump : a.lump index = .ok bytes) :
    (ofArchive a).table.contentAt? index = some (.ofBytes bytes) := by
  obtain ⟨hgeometry, hend⟩ : isGeometry e.name = false ∧ isEndMarker e.name = false := by
    simpa [isPassedOver] using hname
  rw [h.contentAt?, hranges]
  refine LumpTable.findOutside?_eq_some_iff.mpr ⟨hnew, hgeometry, hend, ?_⟩
  rw [← patches_eq, hrule, hlump]
  rfl

open Sorting Converting in
/-- Bytes that may be those of a text are no picture, unless there are very many of them. In a lump
outside every range whose name is new and says nothing, they are kept as they are: the place is of the
unknown category, and the name has these bytes, so that a conversion that looks for a text under the name
finds them if there are any. Only bytes that start like a picture file are kept as such a file. -/
theorem Archive.sorted_keeps_text {bytes : ByteArray} (htext : Picture.IsText bytes)
    (hsize : bytes.size ≤ 0x09090909) :
    Picture.decode? bytes = none ∧
    ∀ (a : Archive) (fallback : Option Palette) (s : Sorting) (index : Nat) (e : LumpEntry)
      (following : List LumpEntry), Reached a s index (e :: following) → s.ranges = [] →
      s.table.isFiled e.name = false → isPassedOver e.name = false →
      Rule.of e.name s.patches (a.folder? index) = .other → a.lump index = .ok bytes →
      let t := (a.sorted fallback).table
      (Png.isFile bytes = true →
        t.categoryAt? index = some .png ∧ t.image? e.name = some (.png bytes)) ∧
      (Png.isFile bytes = false →
        t.categoryAt? index = some .unknown ∧ t.raw? e.name = some bytes ∧
        ∀ (o : Options) (w : World) (name : String), o.cache = false →
          w.session.sorted = some (a.sorted fallback) → Text.upper name = e.name →
          exec (textLump (m := StateM FileTree) o name) w =
            (.ok (if bytes.isEmpty then none else some bytes), w)) := by
  have hnone := Picture.decode?_of_isText htext hsize
  refine ⟨hnone, ?_⟩
  intro a fallback s index e following hreached hranges hnew hname hrule hlump t
  have hplace : t.contentAt? index = some (.ofBytes bytes) :=
    hreached.contentAt?_of_other hranges hnew hname hrule hlump
  have hcontent : t.content? e.name = some (.ofBytes bytes) :=
    content?_of_contentAt? hreached.getElem? hplace
  rw [Content.ofBytes_of_none hnone] at hplace hcontent
  constructor
  · intro hfile
    rw [if_pos hfile] at hplace hcontent
    refine ⟨?_, LumpTable.image?_eq_some_iff.mpr ⟨_, hcontent, rfl⟩⟩
    rw [LumpTable.categoryAt?_eq_map, hplace]
    rfl
  · intro hfile
    rw [if_neg (Bool.eq_false_iff.mp hfile)] at hplace hcontent
    have hraw : t.raw? e.name = some bytes := LumpTable.raw?_eq_some_iff.mpr hcontent
    refine ⟨?_, hraw, fun o w name hcache hsorted hupper => ?_⟩
    · rw [LumpTable.categoryAt?_eq_map, hplace]
      rfl
    · have hfound : archived? (a.sorted fallback) name = if bytes.isEmpty then none else some bytes := by
        rw [archived?, hupper, hraw]
        cases hempty : bytes.isEmpty <;> simp [hempty]
      rw [textLump, hcache, ← hfound]
      exact exec_archivedText_of_sorted hsorted

open Sorting Converting in
/-- The declarations of the maps behind a range of flats. A conversion that has read the archive finds
them. -/
theorem Archive.sorted_keeps_text_declarations :
    let bytes := "map MAP01 \"Über\"\n".toUTF8
    let a := Archive.wad ⟨bytes, [⟨"F_START", 0, 0⟩, ⟨"F_END", 0, 0⟩, ⟨"MAPINFO", 0, 18⟩]⟩
    let w : World := ⟨{ Session.start with sorted := some (a.sorted none) }, ⟨[], [], []⟩⟩
    Picture.decode? bytes = none ∧ (a.sorted none).table.categoryAt? 2 = some .unknown ∧
      (a.sorted none).table.raw? "MAPINFO" = some bytes ∧
      exec (textLump (Options.standard "mod.wad" "out") "mapinfo") w = (.ok (some bytes), w) := by
  intro bytes a w
  have hreached : Reached a (before a 2) 2 [⟨"MAPINFO", 0, 18⟩] :=
    reached_of_not_isGeometry rfl (by decide)
  have htext : Picture.IsText bytes := by
    unfold Picture.IsText
    decide +kernel
  obtain ⟨hnone, hkept⟩ := Archive.sorted_keeps_text htext (by decide +kernel)
  obtain ⟨-, hraw⟩ := hkept a none _ 2 _ [] hreached (by decide +kernel) (by decide +kernel)
    (by decide) (by decide +kernel) (by decide +kernel)
  obtain ⟨hcategory, hbytes, hfound⟩ := hraw (by decide +kernel)
  exact ⟨hnone, hcategory, hbytes,
    hfound (.standard "mod.wad" "out") w "mapinfo" rfl rfl (by decide +kernel)⟩

end Interlude
