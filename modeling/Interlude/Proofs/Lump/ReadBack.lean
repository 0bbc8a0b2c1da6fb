import Mathlib
import Interlude.Lump.Texture
import Interlude.Proofs.Archive.ReadBack
import Interlude.Proofs.Picture.Layout

/-!
# Reading textures and patch names back

A texture lump begins with the number of its textures and the list of their offsets; each offset leads to a
header and the placements of the patches. Nothing is said of where the textures are: they may lie in any
order, several offsets may lead to one place, and what else is in the lump does not matter. A patch name lump
is the number of the names and the names. Every such lump is read as what it holds. Each part is read from the
bytes that it is written as, and the parts of a list one after the other.
-/

namespace Interlude

open Cursor
open Picture (LiesAt)
open Wad (IsStorable nameField)

/-! ### Written forms -/

/-- The ten bytes of a placement. -/
def Placement.bytes (p : Placement) : List UInt8 :=
  Bytes.toLE 2 p.originX.toUInt16.toNat ++ (Bytes.toLE 2 p.originY.toUInt16.toNat ++
    (Bytes.toLE 2 p.patch.toUInt16.toNat ++ (Bytes.toLE 2 p.stepDir.toUInt16.toNat ++
      Bytes.toLE 2 p.colormap.toUInt16.toNat)))

namespace Texture

/-- The 22 bytes of the header, of which the last two are the number of the placements. -/
def header (t : Texture) : List UInt8 :=
  nameField t.name ++ (Bytes.toLE 4 t.masked.toUInt32.toNat ++ (Bytes.toLE 2 t.width.toUInt16.toNat ++
    (Bytes.toLE 2 t.height.toUInt16.toNat ++ (Bytes.toLE 4 t.columnDirectory.toUInt32.toNat ++
      Bytes.toLE 2 t.patches.length))))

/-- The bytes of a texture: the header and the placements. -/
def bytes (t : Texture) : List UInt8 :=
  t.header ++ t.patches.flatMap Placement.bytes

/-- Textures that the format has room for. -/
structure Storable (t : Texture) : Prop where
  name : IsStorable t.name
  patches : t.patches.length ≤ 32767

end Texture

namespace Lump

/-- The bytes of a list: the number of its items, and the items one after the other. -/
def countedBytes {α : Type} (item : α → List UInt8) (items : List α) : List UInt8 :=
  Bytes.toLE 4 items.length ++ items.flatMap item

/-- A texture lump holds textures: it begins with the list of their offsets, and each texture lies where its
offset leads. -/
structure HoldsTextures (lump : ByteArray) (textures : List Texture) (offsets : List Nat) : Prop where
  length_lt : offsets.length < 2 ^ 31
  table : LiesAt lump 0 (countedBytes (Bytes.toLE 4) offsets)
  textures : List.Forall₂ (fun offset t => offset < 2 ^ 31 ∧ LiesAt lump offset t.bytes) offsets textures

/-- A patch name lump holds names: it begins with the list of them. -/
structure HoldsNames (lump : ByteArray) (names : List String) : Prop where
  length_lt : names.length < 2 ^ 31
  table : LiesAt lump 0 (countedBytes nameField names)

/-- A header has 22 bytes. -/
theorem length_header {t : Texture} (h : IsStorable t.name) : t.header.length = 22 := by
  simp [Texture.header, Wad.length_nameField h, nameWidth]

/-! ### Items -/

/-- A placement is read back. -/
theorem yields_readPlacement (p : Placement) : Yields readPlacement p.bytes p := by
  have hlast := (yields_signed16 p.colormap).map
    (⟨p.originX, p.originY, p.patch, p.stepDir, ·⟩ : Int16 → Placement)
  exact (yields_signed16 p.originX).bind <| (yields_signed16 p.originY).bind <|
    (yields_signed16 p.patch).bind <| (yields_signed16 p.stepDir).bind hlast

/-- A name is read back. -/
theorem yields_readName {name : String} (h : IsStorable name) :
    Yields readName (nameField name) name := by
  have hread := (yields_take (nameField name)).map nameOfBytes
  rwa [Wad.length_nameField h, Wad.nameOfBytes_nameField h] at hread

/-- The number of placements is read back as what it is. -/
theorem yields_placementCount {count : Nat} (h : count ≤ 32767) :
    Yields i16 (Bytes.toLE 2 count) (UInt16.ofNat count).toInt16 ∧
      (UInt16.ofNat count).toInt16.toNatClampNeg = count := by
  have hnat : (UInt16.ofNat count).toNat = count :=
    UInt16.toNat_ofNat_of_lt' (h.trans_lt (by decide))
  have hsmall : UInt16.ofNat count ≤ 32767 := by
    rw [UInt16.le_iff_toNat_le, hnat]
    exact h
  have hread := yields_i16 (UInt16.ofNat count)
  rw [hnat] at hread
  exact ⟨hread, by rw [Picture.toNatClampNeg_toInt16 hsmall, hnat]⟩

/-- A texture is read back. -/
theorem yields_readTexture {t : Texture} (h : t.Storable) : Yields readTexture t.bytes t := by
  obtain ⟨hcount, hclamp⟩ := yields_placementCount h.patches
  have hpatches : Yields (times t.patches.length readPlacement) (t.patches.flatMap Placement.bytes)
      (t.patches.map id) := Yields.times fun p _ => yields_readPlacement p
  rw [List.map_id] at hpatches
  rw [Texture.bytes, Texture.header]
  simp only [List.append_assoc]
  refine (yields_readName h.name).bind <| (yields_signed32 t.masked).bind <|
    (yields_signed16 t.width).bind <| (yields_signed16 t.height).bind <|
    (yields_signed32 t.columnDirectory).bind <| hcount.bind ?_
  rw [hclamp]
  exact hpatches.map (⟨t.name, t.masked, t.width, t.height, t.columnDirectory, ·⟩ : _ → Texture)

/-! ### Lists -/

/-- A number that is small enough is read back as what it is. -/
theorem yields_i32_of_lt {n : Nat} (h : n < 2 ^ 31) :
    Yields i32 (Bytes.toLE 4 n) (UInt32.ofNat n).toInt32 ∧ 0 ≤ (UInt32.ofNat n).toInt32 ∧
      (UInt32.ofNat n).toInt32.toNatClampNeg = n := by
  have hnat : (UInt32.ofNat n).toNat = n := UInt32.toNat_ofNat_of_lt' (h.trans (by decide))
  have hnonneg : 0 ≤ (UInt32.ofNat n).toInt32 := Picture.toInt32_nonneg_iff.mpr (hnat.trans_lt h)
  have hread := yields_i32 (UInt32.ofNat n)
  rw [hnat] at hread
  exact ⟨hread, hnonneg, by rw [Picture.toNatClampNeg_toInt32 hnonneg, hnat]⟩

/-- A list is read back if its items are. -/
theorem yields_readCounted {α β : Type} {read : Reading α} {item : β → List UInt8} {value : β → α}
    {items : List β} (hlength : items.length < 2 ^ 31)
    (hitems : ∀ b ∈ items, Yields read (item b) (value b)) :
    Yields (readCounted read) (countedBytes item items) (items.map value) := by
  obtain ⟨hcount, -, hclamp⟩ := yields_i32_of_lt hlength
  refine hcount.bind ?_
  rw [hclamp]
  exact Yields.times hitems

/-- A texture is read where it lies. -/
theorem textureAt_of_liesAt {lump : ByteArray} {offset : Nat} {t : Texture} (h : t.Storable)
    (hoffset : offset < 2 ^ 31) (hlies : LiesAt lump offset t.bytes) :
    textureAt lump (UInt32.ofNat offset).toInt32 = .ok t := by
  obtain ⟨-, hnonneg, hclamp⟩ := yields_i32_of_lt hoffset
  have hsome : t.bytes ≠ [] := by
    refine List.ne_nil_of_length_pos ?_
    rw [Texture.bytes, List.length_append, length_header h.name]
    omega
  rw [textureAt, if_neg (Int32.not_lt.mpr hnonneg), hclamp,
    hlies.read_eq hsome (yields_readTexture h)]
  rfl

/-- Items that are found one by one are found together. -/
theorem mapM_eq_ok_of_forall₂ {ε α β : Type} {f : α → Except ε β} {items : List α} {found : List β}
    (h : List.Forall₂ (fun item b => f item = .ok b) items found) : items.mapM f = .ok found := by
  induction h with
  | nil => rfl
  | cons hitem _ ih =>
    rw [List.mapM_cons, hitem, ih]
    rfl

/-- The textures of a lump are read where its offsets lead. -/
theorem HoldsTextures.readTextures_eq {lump : ByteArray} {textures : List Texture} {offsets : List Nat}
    (h : HoldsTextures lump textures offsets) (hstorable : ∀ t ∈ textures, t.Storable) :
    readTextures lump = .ok textures := by
  let number (offset : Nat) : Int32 := (UInt32.ofNat offset).toInt32
  obtain ⟨hsmall, -⟩ := (List.forall₂_and_left offsets textures).mp h.textures
  have hread : Yields (readCounted i32) (countedBytes (Bytes.toLE 4) offsets) (offsets.map number) :=
    yields_readCounted h.length_lt fun offset hoffset => (yields_i32_of_lt (hsmall offset hoffset)).1
  have hfound : List.Forall₂ (fun offset t => textureAt lump (number offset) = .ok t) offsets textures := by
    obtain ⟨hlength, hpairs⟩ := List.forall₂_iff_zip.mp h.textures
    refine List.forall₂_iff_zip.mpr ⟨hlength, fun hpair => ?_⟩
    obtain ⟨hoffset, hlies⟩ := hpairs hpair
    exact textureAt_of_liesAt (hstorable _ (List.of_mem_zip hpair).2) hoffset hlies
  rw [readTextures, Cursor.start, h.table.read_eq (List.cons_ne_nil _ _) hread]
  exact mapM_eq_ok_of_forall₂ (List.forall₂_map_left_iff.mpr hfound)

/-- The names of a lump are read one after the other. -/
theorem HoldsNames.readPatchNames_eq {lump : ByteArray} {names : List String} (h : HoldsNames lump names)
    (hstorable : ∀ name ∈ names, IsStorable name) : readPatchNames lump = .ok names := by
  have hread : Yields (readCounted readName) (countedBytes nameField names) (names.map id) :=
    yields_readCounted h.length_lt fun name hname => yields_readName (hstorable name hname)
  rw [List.map_id] at hread
  rw [readPatchNames, Cursor.start, h.table.read_eq (List.cons_ne_nil _ _) hread]
  rfl

/-- All textures that the format has room for are read back from every lump that holds them, wherever in the
lump they lie, and so are all names from every lump that holds them. -/
theorem stored_lists_read_back :
    (∀ lump textures offsets, HoldsTextures lump textures offsets → (∀ t ∈ textures, t.Storable) →
      readTextures lump = .ok textures) ∧
    ∀ lump names, HoldsNames lump names → (∀ name ∈ names, IsStorable name) →
      readPatchNames lump = .ok names :=
  ⟨fun _ _ _ h hstorable => h.readTextures_eq hstorable, fun _ _ h hstorable => h.readPatchNames_eq hstorable⟩

/-- Three textures of which the first and the last one share their place behind the second one, with a byte
between the offsets and the textures that belongs to nothing; and two names. -/
theorem stored_lists_read_back_shared :
    let narrow : Texture := ⟨"é", -1, -2, 300, -2147483648, []⟩
    let door : Texture := ⟨"BIGDOOR1", 0, 128, 96, 7, [⟨4, -2, 7, 0, -32768⟩]⟩
    let textures : ByteArray := ⟨#[3, 0, 0, 0, 49, 0, 0, 0, 17, 0, 0, 0, 49, 0, 0, 0, 9,
      66, 73, 71, 68, 79, 79, 82, 49, 0, 0, 0, 0, 128, 0, 96, 0, 7, 0, 0, 0, 1, 0,
      4, 0, 254, 255, 7, 0, 0, 0, 0, 128,
      195, 169, 0, 0, 0, 0, 0, 0, 255, 255, 255, 255, 254, 255, 44, 1, 0, 0, 0, 128, 0, 0]⟩
    let names : ByteArray := ⟨#[2, 0, 0, 0, 87, 65, 76, 76, 48, 48, 95, 49, 68, 79, 79, 82, 0, 0, 0, 0, 9]⟩
    HoldsTextures textures [narrow, door, narrow] [49, 17, 49] ∧
      readTextures textures = .ok [narrow, door, narrow] ∧
      HoldsNames names ["WALL00_1", "DOOR"] ∧ readPatchNames names = .ok ["WALL00_1", "DOOR"] := by
  intro narrow door textures names
  have hnarrow : 49 < 2 ^ 31 ∧ LiesAt textures 49 narrow.bytes := by decide +kernel
  have hdoor : 17 < 2 ^ 31 ∧ LiesAt textures 17 door.bytes := by decide +kernel
  have htextures : HoldsTextures textures [narrow, door, narrow] [49, 17, 49] :=
    ⟨by decide, by decide +kernel, .cons hnarrow (.cons hdoor (.cons hnarrow .nil))⟩
  have hnames : HoldsNames names ["WALL00_1", "DOOR"] := ⟨by decide, by decide +kernel⟩
  have hstorable : ∀ t ∈ [narrow, door, narrow], t.Storable := by
    have hfirst : narrow.Storable := ⟨by decide +kernel, by decide⟩
    have hsecond : door.Storable := ⟨by decide +kernel, by decide⟩
    simp [hfirst, hsecond]
  obtain ⟨hreadTextures, hreadNames⟩ := stored_lists_read_back
  exact ⟨htextures, hreadTextures _ _ _ htextures hstorable, hnames,
    hreadNames _ _ hnames (by decide +kernel)⟩

end Lump

end Interlude
