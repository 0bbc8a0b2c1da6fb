import Mathlib
import Interlude.Proofs.Png.Chunks
import Interlude.Proofs.Raster.Coverage
import Interlude.Proofs.Raster.Indexing

/-!
# The pixels of a written picture

A reader of an image looks the indices up in the palette, with the opacities that come with it, or
takes the colours as they are. What it finds in the chunks of a picture is the drawing of the picture,
pixel for pixel, and the place of the origin.
-/

namespace Interlude.Png

/-- The pixel of an index: an entry of the palette with its opacity, which is full past the end of
the list of opacities. -/
def lookUp? (palette : List Rgb) (alphas : List UInt8) (index : UInt8) : Option Pixel :=
  palette[index.toNat]?.map fun color => ⟨color, alphas[index.toNat]?.getD 255⟩

/-- The pixels that a reader finds; none if an index has no entry. -/
def Pixels.shown? : Pixels → Option (List Pixel)
  | .indexed palette alphas indices => indices.mapM (lookUp? palette alphas)
  | .rgba pixels => some pixels

/-- The raster that a reader finds. -/
def raster? (p : Png) : Option Raster :=
  p.pixels.shown?.map fun pixels => ⟨p.width, p.height, pixels.toArray⟩

/-- The number that bytes hold in two's complement, most significant byte first. -/
def signedBE (bytes : List UInt8) : Int :=
  (BitVec.ofNat 32 (Bytes.ofBE bytes)).toInt

/-- A signed number of 32 bits is read back from its four bytes. -/
theorem signedBE_toBE (x : Int32) : signedBE (Bytes.toBE 4 x.toUInt32.toNat) = x.toInt := by
  have hlt : x.toUInt32.toNat < Bytes.capacity 4 := x.toUInt32.toNat_lt
  rw [signedBE, Bytes.ofBE_toBE, Nat.mod_eq_of_lt hlt]
  exact congrArg BitVec.toInt (BitVec.ofNat_toNat 32 x.toBitVec)

/-- The list of opacities makes the entry set apart transparent and every other one opaque. -/
theorem getD_alphasOf (transparent : Option UInt8) (index : UInt8) :
    (alphasOf transparent)[index.toNat]?.getD 255 = if transparent = some index then 0 else 255 := by
  cases transparent with
  | none => rfl
  | some i =>
    simp only [alphasOf, Option.some.injEq]
    rcases Nat.lt_trichotomy index.toNat i.toNat with hlt | heq | hgt
    · have hne : i ≠ index := fun h => Nat.lt_irrefl _ (h ▸ hlt)
      simp [List.getElem?_append_left, hlt, hne]
    · obtain rfl := UInt8.toNat_inj.mp heq
      simp
    · have hne : i ≠ index := fun h => Nat.lt_irrefl _ (h ▸ hgt)
      rw [List.getElem?_eq_none (by simpa using hgt), if_neg hne, Option.getD_none]

/-- The reader of an image finds what the numbers of its indexed form stand for. -/
theorem lookUp?_alphasOf (i : Indexed) : lookUp? i.palette (alphasOf i.transparent) = i.pixel? := by
  funext index
  unfold lookUp? Indexed.pixel?
  rw [getD_alphasOf]

variable (picture : Picture) (palette : Palette)

/-- A drawn picture has no pixel between clear and solid. -/
theorem isMask_ofPicture : (Raster.ofPicture picture palette).IsMask := by
  intro p hp
  rcases Raster.isClear_or_solid_of_mem_ofPicture palette picture hp with hclear | hsolid
  · exact Or.inl (hclear ▸ rfl)
  · exact Or.inr (hsolid ▸ rfl)

/-- All of a drawn picture is seen: its clear pixels have no colour. -/
theorem map_seen_ofPicture :
    (Raster.ofPicture picture palette).pixels.toList.map Pixel.seen =
      (Raster.ofPicture picture palette).pixels.toList := by
  refine (List.map_congr_left fun p hp => ?_).trans (List.map_id' _)
  rcases Raster.isClear_or_solid_of_mem_ofPicture palette picture (Array.mem_toList_iff.mp hp) with
    hclear | hsolid
  · rw [hclear]; rfl
  · rw [hsolid]; rfl

/-- The reader of the image of a picture finds the drawing of the picture. -/
theorem raster?_ofPicture :
    (ofPicture picture palette).raster? = some (Raster.ofPicture picture palette) := by
  have hshown : (ofPicture picture palette).pixels.shown? =
      some (Raster.ofPicture picture palette).pixels.toList := by
    unfold ofPicture
    dsimp only
    cases hindexed : (Raster.ofPicture picture palette).toIndexed? with
    | none => rfl
    | some i =>
      have hlookup := Raster.mapM_pixel?_indices hindexed (isMask_ofPicture picture palette)
      rw [map_seen_ofPicture] at hlookup
      exact (congrArg (i.indices.mapM ·) (lookUp?_alphasOf i)).trans hlookup
  rw [raster?, hshown]
  rfl

/-- The colours are written as they are exactly if there are too many of them for a palette. -/
theorem isRgba_ofPicture_iff :
    (∃ pixels, (ofPicture picture palette).pixels = .rgba pixels) ↔
      Palette.maxColors < (Raster.ofPicture picture palette).colors.length +
        if (Raster.ofPicture picture palette).hasTransparency then 1 else 0 := by
  have hreserved : (Raster.ofPicture picture palette).reserved.length =
      if (Raster.ofPicture picture palette).hasTransparency then 1 else 0 := by
    unfold Raster.reserved
    split <;> rfl
  unfold ofPicture
  dsimp only
  rw [Raster.toIndexed?_eq, ← hreserved, Nat.add_comm]
  split <;> simp_all

/-- The sides of a picture fit into the header. -/
theorem toNat_lt_capacity (side : UInt16) : side.toNat < Bytes.capacity 4 :=
  Nat.lt_trans side.toNat_lt (by decide)

/-- Only the chunk of the origin has its four letters. -/
theorem mem_chunks_grAb_iff (p : Png) (data : List UInt8) :
    ⟨"grAb", data⟩ ∈ p.chunks ↔ ⟨"grAb", data⟩ ∈ originChunks p.origin := by
  have hpalette : ⟨"grAb", data⟩ ∉ p.pixels.paletteChunks := by
    cases p.pixels with
    | indexed palette alphas indices => cases alphas <;> simp [Pixels.paletteChunks]
    | rgba pixels => simp [Pixels.paletteChunks]
  simp [chunks, hpalette]

/-- Whether the chunk of the origin is there, and what it holds. -/
theorem mem_chunks_ofPicture_grAb_iff (data : List UInt8) :
    ⟨"grAb", data⟩ ∈ (ofPicture picture palette).chunks ↔
      (picture.left ≠ 0 ∨ picture.top ≠ 0) ∧
        data = originBytes picture.left.toInt32 picture.top.toInt32 := by
  rw [mem_chunks_grAb_iff]
  change ⟨"grAb", data⟩ ∈ originChunks (originOf picture) ↔ _
  unfold originOf Picture.hasOffset
  by_cases hoffset : picture.left ≠ 0 ∨ picture.top ≠ 0
  · simp [originChunks, hoffset]
  · rw [not_or, Decidable.not_not, Decidable.not_not] at hoffset
    simp [originChunks, hoffset]

/-- The file of a picture shows the picture. Its chunks are those of an image, which has palette
indices exactly if the colours and the entry for transparent pixels, if one is needed, are no more
than 256. What a reader finds there is the drawing: each place shows the last run that covers it, opaque
and in the colour of the palette, and is transparent if no run does. The chunk of the origin is there
exactly if the origin is not the corner, and holds its column and row. The format has room for the
image as long as the picture has an area. -/
theorem chunks_ofPicture_show (picture : Picture) (palette : Palette) :
    ((ofPicture picture palette).hasArea = true ↔ 0 < picture.width ∧ 0 < picture.height) ∧
    (∃ image raster, ofChunks? (ofPicture picture palette).chunks = some image ∧
      image.raster? = some raster ∧ raster = Raster.ofPicture picture palette ∧
      ((∃ pixels, image.pixels = .rgba pixels) ↔
        Palette.maxColors < raster.colors.length + if raster.hasTransparency then 1 else 0) ∧
      (image.origin.isSome ↔ picture.left ≠ 0 ∨ picture.top ≠ 0) ∧
      ∀ x < picture.width.toNat, ∀ y < picture.height.toNat, ∃ p, raster.pixel? x y = some p ∧
        p = palette.pixel (picture.value? x y) ∧
        (p.alpha = 255 ↔ ∃ post ∈ picture.posts, post.Covers x y) ∧
        (p.alpha = 0 ↔ ¬ ∃ post ∈ picture.posts, post.Covers x y)) ∧
    ((∃ data, ⟨"grAb", data⟩ ∈ (ofPicture picture palette).chunks) ↔
      picture.left ≠ 0 ∨ picture.top ≠ 0) ∧
    ∀ data, ⟨"grAb", data⟩ ∈ (ofPicture picture palette).chunks → data.length = 8 ∧
      signedBE (data.take 4) = picture.left.toInt ∧ signedBE (data.drop 4) = picture.top.toInt := by
  have hread : ofChunks? (ofPicture picture palette).chunks = some (ofPicture picture palette) :=
    ofChunks?_chunks _ (toNat_lt_capacity picture.width) (toNat_lt_capacity picture.height)
  refine ⟨?_, ⟨_, _, hread, raster?_ofPicture picture palette, rfl, ?_, ?_, ?_⟩, ?_, ?_⟩
  · simp only [hasArea, Bool.and_eq_true, decide_eq_true_eq]
    exact Iff.rfl
  · exact isRgba_ofPicture_iff picture palette
  · change (originOf picture).isSome ↔ _
    unfold originOf Picture.hasOffset
    split <;> simp_all
  · intro x hx y hy
    rw [← Picture.value?_isSome_iff]
    exact ⟨_, Raster.pixel?_ofPicture palette picture hx hy, rfl, Palette.alpha_pixel palette _⟩
  · simp only [mem_chunks_ofPicture_grAb_iff, exists_and_left, exists_eq, and_true]
  · intro data hdata
    obtain ⟨_, rfl⟩ := (mem_chunks_ofPicture_grAb_iff picture palette data).mp hdata
    obtain ⟨hcolumn, hrow⟩ := take_originBytes picture.left.toInt32 picture.top.toInt32
    refine ⟨length_originBytes _ _, ?_, ?_⟩
    · rw [hcolumn, signedBE_toBE]
      exact Int16.toInt_toInt32 picture.left
    · rw [hrow, signedBE_toBE]
      exact Int16.toInt_toInt32 picture.top

/-- A black pixel over another one, beside a place that no run covers: the two share their colour, and
only the place that is covered is opaque. -/
theorem chunks_ofPicture_show_black :
    let picture : Picture := ⟨2, 1, -3, 7, [⟨0, 0, [1]⟩, ⟨0, 0, [0, 1]⟩, ⟨9, 0, [1]⟩]⟩
    let palette : Palette := ⟨#[.black, ⟨200, 10, 10⟩]⟩
    0 < picture.width.toNat ∧ 1 < picture.width.toNat ∧ 0 < picture.height.toNat ∧
      ∃ image raster, ofChunks? (ofPicture picture palette).chunks = some image ∧
        image.raster? = some raster ∧ raster.pixel? 0 0 = some (.solid .black) ∧
        raster.pixel? 1 0 = some .clear ∧ ⟨"grAb", [255, 255, 255, 253, 0, 0, 0, 7]⟩ ∈
          (ofPicture picture palette).chunks := by
  intro picture palette
  obtain ⟨_, ⟨image, raster, hread, hraster, _, _, _, hpixels⟩, _, _⟩ :=
    chunks_ofPicture_show picture palette
  obtain ⟨p, hp, hshown, _⟩ := hpixels 0 (by decide) 0 (by decide)
  obtain ⟨q, hq, hclear, _⟩ := hpixels 1 (by decide) 0 (by decide)
  refine ⟨by decide, by decide, by decide, image, raster, hread, hraster, ?_, ?_, ?_⟩
  · rw [hp, hshown]; decide
  · rw [hq, hclear]; decide
  · exact (mem_chunks_ofPicture_grAb_iff picture palette _).mpr ⟨by decide, by decide⟩

end Interlude.Png
