import Mathlib
import Interlude.Proofs.LumpTable.Names
import Interlude.Proofs.LumpTable.OneByOne

/-!
# What is passed over

Outside every range the lumps of maps and the end markers are passed over, whatever they hold. A range
does not ask for such names: there only the marker that ends it is passed over, and all other lumps are
of its kind. In a folder with a kind the lumps are of that kind, but those that are named like sounds or
music are passed over there as well.
-/

namespace Interlude

/-- Whether a name is that of a lump of a map or that of an end marker. -/
def isPassedOver (name : String) : Bool :=
  isGeometry name || isEndMarker name

/-- Such a name opens no range. -/
theorem endMarker?_of_isPassedOver {name : String} (h : isPassedOver name = true) :
    endMarker? name = none := by
  cases hmarker : endMarker? name with
  | none => rfl
  | some terminator =>
    obtain ⟨hgeometry, hend⟩ := not_passed_of_endMarker? hmarker
    simp [isPassedOver, hgeometry, hend] at h

/-- The category of bytes in a range or a folder: a picture file, or else of the kind there, or else
what bytes are of which only the name is known. -/
theorem Content.category_ofRange (kind : RangeKind) (bytes : ByteArray) :
    (Content.ofRange kind bytes).category =
      if Png.isFile bytes then .png
      else if kind = .flat ∨ (Picture.decode? bytes).isSome then .image kind.imageKind
      else (Content.ofBytes bytes).category := by
  unfold Content.ofRange Content.ofBytes
  split
  · rfl
  · cases kind with
    | flat => simp [Content.category, RangeKind.imageKind]
    | sprite => cases Picture.decode? bytes <;> simp [Content.category, RangeKind.imageKind]
    | patch => cases Picture.decode? bytes <;> simp [Content.category, RangeKind.imageKind]

namespace Sorting

variable {a : Archive} {index : Nat} {s : Sorting} {e : LumpEntry} {following : List LumpEntry}

/-- What the table holds at a place that is reached follows from the state in which it is reached. -/
theorem Reached.contentAt? (h : Reached a s index (e :: following)) :
    (ofArchive a).table.contentAt? index = s.table.find? s.ranges a index e := by
  have hindex : index < a.entries.length := (List.getElem?_eq_some_iff.mp h.getElem?).1
  rw [contentAt?_ofArchive h.getElem?, h.eq_before, table_before hindex.le]

/-- A name that has a content got it at one of its places. -/
theorem exists_contentAt? {name : String} {c : Content}
    (hc : (ofArchive a).table.content? name = some c) :
    ∃ index e, a.entries[index]? = some e ∧ e.name = name ∧
      (ofArchive a).table.contentAt? index = some c := by
  obtain ⟨last, hlast⟩ := (Reached.start (a := a)).reached_visitAll
  have hfaithful : Faithful a last (ofArchive a).table := hlast.faithful
  obtain ⟨f, hf, rfl, rfl⟩ := LumpTable.content?_eq_some_iff.mp hc
  obtain ⟨e, he, hname⟩ := Option.map_eq_some_iff.mp (hfaithful.named f hf)
  exact ⟨f.index, e, he, hname, (hfaithful.inOrder.contentAt?_eq_some_iff _).mpr ⟨f, hf, rfl, rfl⟩⟩

/-- What the table holds at a place is the content of the name there. -/
theorem content?_of_contentAt? {c : Content} (he : a.entries[index]? = some e)
    (hc : (ofArchive a).table.contentAt? index = some c) :
    (ofArchive a).table.content? e.name = some c := by
  obtain ⟨last, hlast⟩ := (Reached.start (a := a)).reached_visitAll
  have hfaithful : Faithful a last (ofArchive a).table := hlast.faithful
  obtain ⟨f, hf, rfl, rfl⟩ := (hfaithful.inOrder.contentAt?_eq_some_iff _).mp hc
  have hname := hfaithful.named f hf
  rw [he, Option.map_some, Option.some.injEq] at hname
  exact LumpTable.content?_eq_some_iff.mpr ⟨f, hf, hname.symm, rfl⟩

end Sorting

open Sorting in
/-- A lump of a map or an end marker has a content only where a range is open that another marker ends:
there it is what the kind of that range makes of it, as any other lump is. Everywhere else it has none,
and a name that has none of its places in such a range has neither an image nor bytes. -/
theorem Archive.sorted_passes_over_iff (a : Archive) (fallback : Option Palette) :
    let t := (a.sorted fallback).table
    (∀ index e c, a.entries[index]? = some e → isPassedOver e.name = true →
      (t.contentAt? index = some c ↔ ∃ s following range outer,
        Reached a s index (e :: following) ∧ s.ranges = range :: outer ∧
        range.terminator ≠ e.name ∧ s.table.findInside? a index e range.kind = some c)) ∧
    (∀ name, isPassedOver name = true → ((t.image? name).isSome ∨ (t.raw? name).isSome) →
      ∃ s index e following range outer, Reached a s index (e :: following) ∧ e.name = name ∧
        s.ranges = range :: outer ∧ range.terminator ≠ name ∧ e.size ≠ 0) := by
  intro t
  have hplaces (index : Nat) (e : LumpEntry) (c : Content) (he : a.entries[index]? = some e)
      (hname : isPassedOver e.name = true) : t.contentAt? index = some c ↔
        ∃ s following range outer, Reached a s index (e :: following) ∧ s.ranges = range :: outer ∧
          range.terminator ≠ e.name ∧ s.table.findInside? a index e range.kind = some c := by
    have hmarker := endMarker?_of_isPassedOver hname
    constructor
    · intro hc
      rw [show t.contentAt? index = _ from contentAt?_ofArchive he] at hc
      cases hranges : (before a index).ranges with
      | nil =>
        rw [hranges] at hc
        obtain ⟨-, hgeometry, hend, -⟩ := LumpTable.findOutside?_eq_some_iff.mp hc
        simp [isPassedOver, hgeometry, hend] at hname
      | cons range outer =>
        obtain ⟨following, hreached⟩ | ⟨-, hnone⟩ := reached_or_passed he
        · rw [← contentAt?_ofArchive he, hreached.contentAt?, hranges] at hc
          obtain ⟨hstop, -, hfound⟩ := LumpTable.find?_cons_eq_some_iff.mp hc
          exact ⟨_, following, range, outer, hreached, hranges, hstop, hfound⟩
        · simp [hranges] at hnone
    · rintro ⟨s, following, range, outer, hreached, hranges, hstop, hfound⟩
      rw [show t.contentAt? index = _ from hreached.contentAt?, hranges]
      exact LumpTable.find?_cons_eq_some_iff.mpr ⟨hstop, hmarker, hfound⟩
  refine ⟨hplaces, fun name hname hsome => ?_⟩
  have hcontent : (t.content? name).isSome := by
    rcases hsome with himage | hraw
    · obtain ⟨i, himage⟩ := Option.isSome_iff_exists.mp himage
      obtain ⟨c, hc, -⟩ := LumpTable.image?_eq_some_iff.mp himage
      rw [hc, Option.isSome_some]
    · obtain ⟨bytes, hraw⟩ := Option.isSome_iff_exists.mp hraw
      rw [LumpTable.raw?_eq_some_iff.mp hraw, Option.isSome_some]
  obtain ⟨c, hc⟩ := Option.isSome_iff_exists.mp hcontent
  obtain ⟨index, e, he, rfl, hplace⟩ := exists_contentAt? hc
  obtain ⟨s, following, range, outer, hreached, hranges, hstop, hfound⟩ :=
    (hplaces index e c he hname).mp hplace
  exact ⟨s, index, e, following, range, outer, hreached, rfl, hranges, hstop,
    (LumpTable.findInside?_eq_some_iff.mp hfound).1⟩

open Sorting in
/-- Lumps of a map before a range and in it. -/
theorem Archive.sorted_passes_over_outside :
    let w : Wad := ⟨⟨#[1, 2]⟩, [⟨"THINGS", 0, 1⟩, ⟨"F_START", 0, 0⟩, ⟨"SEGS", 1, 1⟩, ⟨"F_END", 0, 0⟩]⟩
    let t := ((Archive.wad w).sorted none).table
    isPassedOver "THINGS" = true ∧ t.contentAt? 0 = none ∧
      isPassedOver "SEGS" = true ∧ t.contentAt? 2 = some (.ofRange .flat ⟨#[2]⟩) := by
  intro w t
  obtain ⟨hplaces, -⟩ := Archive.sorted_passes_over_iff (.wad w) none
  refine ⟨by decide, ?_, by decide, (hplaces 2 ⟨"SEGS", 1, 1⟩ _ rfl (by decide)).mpr ?_⟩
  · rw [Option.eq_none_iff_forall_ne_some]
    intro c hc
    obtain ⟨s, following, range, outer, hreached, hranges, -⟩ :=
      (hplaces 0 ⟨"THINGS", 0, 1⟩ c rfl (by decide)).mp hc
    rw [hreached.eq_before] at hranges
    exact nomatch hranges
  · have he : (Archive.wad w).entries[2]? = some ⟨"SEGS", 1, 1⟩ := rfl
    obtain ⟨following, hreached⟩ | ⟨-, hnone⟩ := reached_or_passed he
    · exact ⟨_, following, ⟨.flat, "F_END"⟩, [], hreached, rfl, by decide, rfl⟩
    · exact nomatch hnone

open Sorting in
/-- A lump of a map and the end marker of another range, both of which lie in a range of flats, are
flats. -/
theorem Archive.sorted_decodes_map_lump_in_range :
    let w : Wad := ⟨⟨#[1, 2]⟩, [⟨"F_START", 0, 0⟩, ⟨"THINGS", 0, 1⟩, ⟨"S_END", 1, 1⟩, ⟨"F_END", 0, 0⟩]⟩
    let t := ((Archive.wad w).sorted none).table
    isPassedOver "THINGS" = true ∧ t.categoryAt? 1 = some (.image .flat) ∧
      (t.image? "THINGS").isSome ∧
      isPassedOver "S_END" = true ∧ t.categoryAt? 2 = some (.image .flat) ∧
      (t.image? "S_END").isSome := by
  intro w t
  have htable : t = (before (.wad w) 4).table := table_sorted (.wad w) none
  rw [htable]
  decide +kernel

/-! ### Folders -/

open Sorting in
/-- In a folder with a kind, outside every range, a lump that can be read, that has no content yet and
that is none of those which are known by their names alone is of the kind of the folder: a picture file,
a picture of that kind, or else what other bytes are. But if it is named like a sound or music, it is
passed over. -/
theorem Archive.sorted_in_folder (a : Archive) (fallback : Option Palette) {s : Sorting} {index : Nat}
    {e : LumpEntry} {following : List LumpEntry} {kind : RangeKind} {bytes : ByteArray}
    (hreached : Reached a s index (e :: following)) (hranges : s.ranges = [])
    (hfolder : (a.folder? index).bind RangeKind.ofFolder? = some kind)
    (hnew : s.table.isFiled e.name = false) (hname : isPassedOver e.name = false)
    (hsystem : e.name ∉ systemNames) (hlump : a.lump index = .ok bytes) :
    let t := (a.sorted fallback).table
    t.contentAt? index = (if isSoundName e.name then none else some (.ofRange kind bytes)) ∧
    t.categoryAt? index =
      if isSoundName e.name then none
      else some (
        if Png.isFile bytes then .png
        else if kind = .flat ∨ (Picture.decode? bytes).isSome then .image kind.imageKind
        else (Content.ofBytes bytes).category) := by
  intro t
  obtain ⟨hgeometry, hend⟩ : isGeometry e.name = false ∧ isEndMarker e.name = false := by
    simpa [isPassedOver] using hname
  have hcontent : t.contentAt? index =
      if isSoundName e.name then none else some (.ofRange kind bytes) := by
    rw [show t.contentAt? index = _ from hreached.contentAt?, hranges]
    simp only [LumpTable.find?, LumpTable.findOutside?, hnew, hgeometry, hend, Bool.or_self, hlump]
    cases hsound : isSoundName e.name with
    | true =>
      rw [Rule.of_isSoundName hsound]
      rfl
    | false =>
      rw [Rule.of_inFolder hsystem hsound hfolder]
      rfl
  refine ⟨hcontent, ?_⟩
  rw [LumpTable.categoryAt?_eq_map, hcontent, ← Content.category_ofRange]
  split <;> rfl

/-- A flat of one byte in a PK3, as a file that is stored as it is. -/
def Pk3.flat (path : String) (byte : UInt8) : Pk3 where
  data := ⟨#[byte]⟩
  files := [{
    path := path
    pathBytes := path.toUTF8.data.toList
    comment := ""
    method := Zip.stored
    encrypted := false
    ciphered := false
    crc := Bytes.crc32 [byte]
    packedSize := 1
    size := 1
    header := 0
    start := 0 }]

open Sorting in
/-- A file in the folder of the flats is a flat. -/
theorem Archive.sorted_in_folder_flat :
    let a := Archive.pk3 (.flat "flats/sand.lmp" 7)
    Reached a .start 0 [⟨"SAND", 0, 1⟩] ∧ a.folder? 0 = some "flats" ∧ a.lump 0 = .ok ⟨#[7]⟩ ∧
      (a.sorted none).table.categoryAt? 0 = some (.image .flat) := by
  intro a
  have hreached : Reached a .start 0 [⟨"SAND", 0, 1⟩] := Reached.start
  have hfolder : a.folder? 0 = some "flats" := by decide +kernel
  have hlump : a.lump 0 = .ok ⟨#[7]⟩ := by decide +kernel
  obtain ⟨-, hcategory⟩ := Archive.sorted_in_folder a none hreached rfl
    (by rw [hfolder]; rfl) rfl (by decide) (by decide) hlump
  exact ⟨hreached, hfolder, hlump, hcategory⟩

open Sorting in
/-- A flat whose name starts like that of a sound has no category. -/
theorem Archive.sorted_skips_sound_name_in_folder :
    let a := Archive.pk3 (.flat "flats/dsand.lmp" 7)
    a.entries = [⟨"DSAND", 0, 1⟩] ∧ a.folder? 0 = some "flats" ∧ a.lump 0 = .ok ⟨#[7]⟩ ∧
      isPassedOver "DSAND" = false ∧ endMarker? "DSAND" = none ∧ "DSAND" ∉ systemNames ∧
      (a.sorted none).table.categoryAt? 0 = none := by
  intro a
  have htable : (a.sorted none).table = (before a 1).table := table_sorted a none
  rw [htable]
  decide +kernel

end Interlude
