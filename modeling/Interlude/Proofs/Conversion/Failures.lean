import Mathlib
import Interlude.Proofs.Conversion.Guards
import Interlude.Proofs.Interlevel.Durations
import Interlude.Proofs.LumpTable.OneByOne
import Interlude.Proofs.Picture.Decoding

/-!
# How a conversion fails

A conversion fails for the sake of a file: one that cannot be read or written, or the archive itself. A
picture file could also not be made of a picture without area, but no archive holds such a picture:
whatever route a picture takes into the table, it was decoded from a header with a width and a height,
or is a flat. The documents are texts that any reader of JSON takes.
-/

namespace Interlude

/-! ### Pictures have area -/

namespace Picture

/-- Whether a picture has at least one column and one row. -/
def HasArea (p : Picture) : Prop :=
  0 < p.width ∧ 0 < p.height

/-- A number above zero stays so without its sign. -/
private theorem toUInt16_pos {n : Int16} (h : 0 < n) : 0 < n.toUInt16 := by
  rw [UInt16.pos_iff_ne_zero]
  intro hzero
  have hn := congrArg UInt16.toInt16 hzero
  rw [Int16.toInt16_toUInt16] at hn
  exact absurd (hn ▸ h) (by decide)

/-- A picture is decoded only from a header with a width and a height. -/
theorem hasArea_of_decode? {lump : ByteArray} {p : Picture} (h : decode? lump = some p) :
    p.HasArea := by
  obtain ⟨_, _, _, _, _, _, -, hwidth, hheight, -, rfl⟩ := decode?_eq_some_iff.mp h
  exact ⟨toUInt16_pos hwidth, toUInt16_pos hheight⟩

/-- A flat has the size of all flats. -/
theorem hasArea_ofFlat (lump : ByteArray) : (ofFlat lump).HasArea := by
  change (0 : UInt16) < .ofNat flatSize ∧ (0 : UInt16) < .ofNat flatSize
  decide

/-- An image has area if its picture does. -/
theorem HasArea.hasArea_ofPicture {p : Picture} (h : p.HasArea) (palette : Palette) :
    (Png.ofPicture p palette).hasArea = true := by
  have hwidth : 0 < p.width.toNat := UInt16.lt_iff_toNat_lt.mp h.1
  have hheight : 0 < p.height.toNat := UInt16.lt_iff_toNat_lt.mp h.2
  exact Bool.and_eq_true_iff.mpr ⟨decide_eq_true hwidth, decide_eq_true hheight⟩

end Picture

/-- The picture that comes from the bytes of a lump has area. -/
theorem Content.IsOf.hasArea {bytes : ByteArray} {kind : ImageKind} {p : Picture}
    (h : (Content.picture kind p).IsOf bytes) : p.HasArea := by
  cases kind with
  | flat => exact (show p = _ from h) ▸ Picture.hasArea_ofFlat bytes
  | sprite => exact Picture.hasArea_of_decode? h
  | patch => exact Picture.hasArea_of_decode? h
  | graphic => exact Picture.hasArea_of_decode? h

/-- Every picture in a sorted archive has area. -/
theorem Archive.hasArea_of_sorted (a : Archive) (fallback : Option Palette) {name : String}
    {kind : ImageKind} {p : Picture}
    (h : (a.sorted fallback).table.content? name = some (.picture kind p)) : p.HasArea := by
  obtain ⟨last, hlast⟩ := (Sorting.Reached.start (a := a)).reached_visitAll
  obtain ⟨f, hf, -, hcontent⟩ := LumpTable.content?_eq_some_iff.mp h
  rcases hlast.faithful.found f hf with hmap | ⟨bytes, -, hisOf⟩
  · rw [hmap] at hcontent
    contradiction
  · rw [hcontent] at hisOf
    exact hisOf.hasArea

/-- A sorted archive of which all pictures have area. -/
def SortedArchive.HasArea (s : SortedArchive) : Prop :=
  ∀ name kind p, s.table.content? name = some (.picture kind p) → p.HasArea

/-- Whether a conversion fails for the sake of a file: the archive or another one. -/
def ConversionError.OnFile : ConversionError → Prop
  | .opening _ | .file _ _ => True
  | .image _ => False

namespace Converting

variable {α β : Type} {P : α → Prop} {Q : β → Prop}

/-! ### Parts that fail on files alone -/

/-- A session which, if it has read the archive, has read one with pictures that have area. -/
def Sound (s : Session) : Prop :=
  ∀ sorted ∈ s.sorted, sorted.HasArea

/-- A part of a conversion that keeps sessions sound and there fails only for the sake of a file or
gives a result with a property. -/
def FailsOnFiles (P : α → Prop) (x : Converting (StateM FileTree) α) : Prop :=
  ∀ w, Sound w.session → Sound (exec x w).2.session ∧
    match (exec x w).1 with
    | .ok a => P a
    | .error e => e.OnFile

/-- Giving a value with the property. -/
theorem failsOnFiles_pure {a : α} (ha : P a) : FailsOnFiles P (pure a) :=
  fun _ hw => ⟨hw, ha⟩

/-- Failing for the sake of a file. -/
theorem failsOnFiles_throw {e : ConversionError} (he : e.OnFile) : FailsOnFiles P (throw e) :=
  fun _ hw => ⟨hw, he⟩

/-- Looking at a sound session. -/
theorem failsOnFiles_get : FailsOnFiles Sound (get : Converting (StateM FileTree) Session) :=
  fun _ hw => ⟨hw, hw⟩

/-- Changing the session and keeping it sound. -/
theorem failsOnFiles_modify {f : Session → Session} (hf : ∀ s, Sound s → Sound (f s)) :
    FailsOnFiles (fun _ => True) (modify f : Converting (StateM FileTree) Unit) :=
  fun w hw => ⟨hf w.session hw, trivial⟩

/-- An operation on files whose result has the property. -/
theorem failsOnFiles_lift {operation : StateM FileTree α} (h : ∀ t, P (operation.run t).1) :
    FailsOnFiles P (liftM operation) :=
  fun w hw => ⟨hw, h w.files⟩

/-- An operation on files that is told with a path. -/
theorem failsOnFiles_onPath (path : String) (operation : StateM FileTree (Except FileFault α)) :
    FailsOnFiles (fun _ => True) (onPath path operation) := by
  intro w hw
  rw [exec_onPath]
  refine ⟨hw, ?_⟩
  cases (operation.run w.files).1 <;> trivial

/-- To fail on files alone is to guard that the session is sound. -/
theorem failsOnFiles_iff_guards {x : Converting (StateM FileTree) α} :
    FailsOnFiles P x ↔ Guards (fun w => Sound w.session) ConversionError.OnFile P x :=
  Iff.rfl

/-- One part after the other, of which the second one may rely on the property of the result of the
first one. -/
theorem failsOnFiles_bind {x : Converting (StateM FileTree) α}
    {f : α → Converting (StateM FileTree) β} (hx : FailsOnFiles P x)
    (hf : ∀ a, P a → FailsOnFiles Q (f a)) : FailsOnFiles Q (x >>= f) :=
  failsOnFiles_iff_guards.mpr (guards_bind (failsOnFiles_iff_guards.mp hx) fun a ha =>
    failsOnFiles_iff_guards.mp (hf a ha))

/-! ### The parts of a conversion -/

variable (o : Options)

/-- Warnings leave a session sound. -/
theorem failsOnFiles_warn (warnings : List ConversionWarning) :
    FailsOnFiles (fun _ => True) (warn warnings : Converting (StateM FileTree) Unit) :=
  failsOnFiles_modify fun _ hs => hs

/-- The archive has pictures with area, whether it was read before or not. -/
theorem failsOnFiles_lumps : FailsOnFiles SortedArchive.HasArea (lumps (m := StateM FileTree) o) := by
  refine failsOnFiles_bind failsOnFiles_get fun s hs => ?_
  cases hsorted : s.sorted with
  | some sorted => exact failsOnFiles_pure (hs sorted hsorted)
  | none =>
    refine failsOnFiles_bind (failsOnFiles_lift (P := fun _ => True) fun _ => trivial) fun opened _ => ?_
    cases opened with
    | error e => exact failsOnFiles_throw trivial
    | ok archive =>
      have hpalette : FailsOnFiles (fun _ => True) (fallbackPalette (m := StateM FileTree) o) := by
        unfold fallbackPalette
        split
        · exact failsOnFiles_pure trivial
        · exact failsOnFiles_bind (failsOnFiles_onPath _ _) fun _ _ => failsOnFiles_pure trivial
      refine failsOnFiles_bind hpalette fun palette _ => ?_
      have harea : (archive.sorted palette).HasArea := fun _ _ _ => archive.hasArea_of_sorted palette
      refine failsOnFiles_bind (failsOnFiles_warn _) fun _ _ => ?_
      refine failsOnFiles_bind (failsOnFiles_modify fun _ _ => ?_) fun _ _ => failsOnFiles_pure harea
      exact fun sorted hsorted => Option.some.inj hsorted ▸ harea

/-- Fetching a text lump. -/
theorem failsOnFiles_textLump (name : String) :
    FailsOnFiles (fun _ => True) (textLump (m := StateM FileTree) o name) := by
  have harchived (key : String) :
      FailsOnFiles (fun _ => True) (archivedText (m := StateM FileTree) o key) :=
    failsOnFiles_bind (failsOnFiles_lumps o) fun _ _ => failsOnFiles_pure trivial
  unfold textLump
  split
  · refine failsOnFiles_bind (failsOnFiles_onPath _ _) fun cached _ => ?_
    cases cached with
    | some bytes => exact failsOnFiles_pure trivial
    | none =>
      refine failsOnFiles_bind (harchived _) fun found _ => ?_
      cases found with
      | none => exact failsOnFiles_pure trivial
      | some bytes =>
        exact failsOnFiles_bind (failsOnFiles_onPath _ _) fun _ _ => failsOnFiles_pure trivial
  · exact harchived _

/-- Making the file of a picture from an archive of which all pictures have area. -/
theorem failsOnFiles_imageFile {sorted : SortedArchive} (harea : sorted.HasArea) (name key : String) :
    FailsOnFiles (fun _ => True) ((sorted.table.content? key).elim (pure none)
      (imageFile (m := StateM FileTree) sorted name)) := by
  cases hcontent : sorted.table.content? key with
  | none => exact failsOnFiles_pure trivial
  | some content =>
    cases content with
    | picture kind p =>
      have hpng := (harea key kind p hcontent).hasArea_ofPicture sorted.palette
      change FailsOnFiles _ (if (Png.ofPicture p sorted.palette).hasArea then _ else _)
      rw [if_pos hpng]
      exact failsOnFiles_pure trivial
    | _ => exact failsOnFiles_pure trivial

/-- What a conversion does on its way fails on files alone. -/
theorem guardsParts_sound : GuardsParts o (fun w => Sound w.session) ConversionError.OnFile
    SortedArchive.HasArea where
  session := fun hsorted hw => by rwa [Sound, hsorted]
  lumps := failsOnFiles_iff_guards.mp (failsOnFiles_lumps o)
  textLump := fun name => failsOnFiles_iff_guards.mp (failsOnFiles_textLump o name)
  imageFile := fun harea name key => failsOnFiles_iff_guards.mp (failsOnFiles_imageFile harea name key)
  writeFile := fun _ _ => failsOnFiles_iff_guards.mp (failsOnFiles_onPath _ _)

/-- Making the folders and reading the table of the maps. -/
theorem failsOnFiles_prepare : FailsOnFiles (fun _ => True) (prepare (m := StateM FileTree) o) := by
  have hmaps : FailsOnFiles (fun _ => True) (readMaps (m := StateM FileTree) o) := by
    rw [failsOnFiles_iff_guards, readMaps_eq]
    exact (guardsParts_sound o).readText o.mapLump (madeMaps o)
  refine failsOnFiles_bind (failsOnFiles_onPath _ _) fun _ _ => ?_
  split
  · exact failsOnFiles_bind (failsOnFiles_onPath _ _) fun _ _ => hmaps
  · exact hmaps

/-- A whole conversion. -/
theorem failsOnFiles_run (now : String) :
    FailsOnFiles (fun _ => True) (run (m := StateM FileTree) o now) := by
  refine failsOnFiles_bind (failsOnFiles_prepare o) fun maps _ => ?_
  exact failsOnFiles_iff_guards.mpr ((guardsParts_sound o).produce now maps)

end Converting

open Converting in
/-- A conversion fails for the sake of a file alone, the archive or another one, and never over a picture
or a document. Every picture in a sorted archive has a width and a height, so that a picture file can be
made of it with any palette. The durations in the screen of any script are finite, and its document is
JSON, which reads back as the screen and the words about its making. -/
theorem convert_fails_on_files (o : Options) (now : String) (t : FileTree) :
    (∀ e, ((convert o now : StateM FileTree _).run t).1.1 = .error e →
      (∃ cause, e = .opening cause) ∨ ∃ path fault, e = .file path fault) ∧
    (∀ (a : Archive) (fallback : Option Palette) name kind p,
      (a.sorted fallback).table.image? name = some (.picture kind p) →
      0 < p.width ∧ 0 < p.height ∧ ∀ palette, (Png.ofPicture p palette).hasArea = true) ∧
    (∀ maps music name text metadata,
      let screen := Interlevel.ofScript maps music (.ofText name text)
      screen.HasFiniteDurations ∧ ∃ v, JsonValue.ofText? (Interlevel.render screen metadata) = some v ∧
        Interlevel.Document.ofJson? v =
          some ⟨Interlevel.documentType, Interlevel.documentVersion, metadata, screen⟩) := by
  refine ⟨fun e he => ?_, fun a fallback name kind p himage => ?_, fun maps music name text metadata => ?_⟩
  · have hrun := (failsOnFiles_run o now ⟨.start, t⟩ nofun).2
    rw [show (exec (run o now) ⟨.start, t⟩).1 = .error e from he] at hrun
    cases e with
    | opening cause => exact Or.inl ⟨cause, rfl⟩
    | file path fault => exact Or.inr ⟨path, fault, rfl⟩
    | image name => exact hrun.elim
  · obtain ⟨content, hcontent, himage⟩ := LumpTable.image?_eq_some_iff.mp himage
    have hpicture : content = .picture kind p := by
      cases content <;> simp_all [Content.image?]
    have harea := a.hasArea_of_sorted fallback (hpicture ▸ hcontent)
    exact ⟨harea.1, harea.2, harea.hasArea_ofPicture⟩
  · have hfinite := Interlevel.hasFiniteDurations_ofScript maps music name text
    exact ⟨hfinite, _,
      JsonValue.Layout.ofText?_render (Interlevel.isValid_documentLayout _ metadata),
      Interlevel.documentLayout_ofJson? hfinite metadata⟩

open Converting in
/-- A conversion of an archive that is missing, and the picture of a flat of one byte. -/
theorem convert_fails_on_files_missing_archive :
    let o := Options.standard "mod.wad" "out"
    let ran := (convert o "noon" : StateM FileTree _).run ⟨[], [], []⟩
    let error := ConversionError.opening (.unreadable "mod.wad" .missing)
    let w : Wad := ⟨⟨#[7]⟩, [⟨"F_START", 0, 0⟩, ⟨"SAND", 0, 1⟩, ⟨"F_END", 0, 0⟩]⟩
    let t := ((Archive.wad w).sorted none).table
    ran.1.1 = .error error ∧ ((∃ cause, error = .opening cause) ∨ ∃ path fault, error = .file path fault) ∧
      ∃ p, t.image? "SAND" = some (.picture .flat p) ∧ 0 < p.width ∧ 0 < p.height := by
  intro o ran error w t
  have hran : ran.1.1 = .error error := by decide +kernel
  have hcategory : t.category? "SAND" = some (.image .flat) := by
    rw [show t = _ from Sorting.table_sorted (.wad w) none]
    decide +kernel
  obtain ⟨image, himage⟩ := Option.isSome_iff_exists.mp
    (LumpTable.isSome_image?_iff.mpr (Or.inr ⟨_, hcategory⟩))
  obtain ⟨hfails, hpictures, -⟩ := convert_fails_on_files o "noon" ⟨[], [], []⟩
  refine ⟨hran, hfails error hran, ?_⟩
  cases image with
  | png bytes =>
    have hpng := LumpTable.exists_image?_eq_png_iff.mp ⟨bytes, himage⟩
    rw [hcategory] at hpng
    contradiction
  | picture kind p =>
    have hkind := LumpTable.category?_of_image?_eq_picture himage
    obtain rfl : kind = .flat := by
      rw [hcategory] at hkind
      cases hkind
      rfl
    obtain ⟨hwidth, hheight, -⟩ := hpictures (.wad w) none "SAND" .flat p himage
    exact ⟨p, himage, hwidth, hheight⟩

end Interlude
