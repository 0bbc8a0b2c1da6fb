import Mathlib
import Interlude.Picture.Flat
import Interlude.Proofs.Png.Pixels
import Interlude.Proofs.Raster.Numbering

/-!
# Flats keep their rows

The rows of a flat are turned into the columns of a picture, and drawing the picture turns the columns into
rows again. So the pixels of a drawn flat show the bytes of the lump in their order, padded or cut to the
size of a flat. Every place is covered, and no more colours are shown than a byte has values: a flat always
has an indexed form, and no entry of it is set apart.
-/

namespace Interlude

/-! ### Columns of a flat -/

namespace Picture

variable {lump : ByteArray} {x y : Nat}

/-- A column of a flat gives a place no other value than the byte of the lump in the row and the column of
the place. -/
theorem eq_flatPixel_of_mem_ofFlat {post : Post} {value : UInt8} (hpost : post ∈ (ofFlat lump).posts)
    (h : post.value? x y = some value) : value = flatPixel lump x y := by
  obtain ⟨column, hcolumn, rfl⟩ := List.mem_map.mp hpost
  have hlt : column < UInt16.size := (List.mem_range.mp hcolumn).trans (by decide)
  unfold Post.value? at h
  split at h
  · rename_i hreached
    obtain rfl : column = x := by
      rw [← hreached.1]
      exact (UInt16.toNat_ofNat_of_lt' hlt).symm
    rw [show y - (0 : UInt16).toNat = y from rfl, List.getElem?_map, Option.map_eq_some_iff] at h
    obtain ⟨row, hrow, rfl⟩ := h
    obtain ⟨_, rfl⟩ := List.getElem?_eq_some_iff.mp hrow
    rw [List.getElem_range]
  · contradiction

/-- Every place of a flat is reached by its column. -/
theorem exists_covers_ofFlat (hx : x < flatSize) (hy : y < flatSize) :
    ∃ post ∈ (ofFlat lump).posts, post.Covers x y := by
  have hlt : x < UInt16.size := hx.trans (by decide)
  refine ⟨_, List.mem_map.mpr ⟨x, List.mem_range.mpr hx, rfl⟩, UInt16.toNat_ofNat_of_lt' hlt,
    Nat.zero_le y, ?_⟩
  simpa using hy

/-- So a place of a flat has the value of its byte in the lump. -/
theorem value?_ofFlat (hx : x < flatSize) (hy : y < flatSize) :
    (ofFlat lump).value? x y = some (flatPixel lump x y) := by
  have hreached := (value?_isSome_iff (ofFlat lump) x y).mpr (exists_covers_ofFlat hx hy)
  obtain ⟨value, hvalue⟩ := Option.isSome_iff_exists.mp hreached
  obtain ⟨post, hpost, hshown⟩ := List.exists_of_findSome?_eq_some hvalue
  rw [hvalue, eq_flatPixel_of_mem_ofFlat (List.mem_reverse.mp hpost) hshown]

end Picture

/-! ### Drawn flats -/

namespace Raster

open Picture

variable (lump : ByteArray) (palette : Palette)

/-- A drawn flat has 64 pixels to a row and to a column. -/
theorem size_ofPicture_ofFlat : (ofPicture (ofFlat lump) palette).pixels.size = 4096 :=
  size_ofPicture palette (ofFlat lump)

/-- The pixel at a place of the array shows the byte at the same place of the lump. -/
theorem getElem?_ofPicture_ofFlat {i : Nat} (hi : i < 4096) :
    (ofPicture (ofFlat lump) palette).pixels[i]? = some (.solid (palette.color (lump[i]?.getD 0))) := by
  have hx : i % flatSize < flatSize := Nat.mod_lt i (by decide)
  have hy : i / flatSize < flatSize := Nat.div_lt_of_lt_mul hi
  have hplace : i / flatSize * flatSize + i % flatSize = i := Nat.div_add_mod' i flatSize
  have hshown : (ofPicture (ofFlat lump) palette).pixels[i / flatSize * flatSize + i % flatSize]? =
      some (palette.pixel ((ofFlat lump).value? (i % flatSize) (i / flatSize))) :=
    pixel?_ofPicture palette (ofFlat lump) hx hy
  rw [value?_ofFlat hx hy, flatPixel, hplace] at hshown
  exact hshown

/-- The pixels of a drawn flat show the bytes of the lump in their order. -/
theorem toList_ofPicture_ofFlat :
    (ofPicture (ofFlat lump) palette).pixels.toList =
      (List.range 4096).map fun i => .solid (palette.color (lump[i]?.getD 0)) := by
  apply List.ext_getElem?
  intro i
  rw [Array.getElem?_toList, List.getElem?_map]
  by_cases hi : i < 4096
  · rw [getElem?_ofPicture_ofFlat lump palette hi, List.getElem?_range hi, Option.map_some]
  · have hsize := size_ofPicture_ofFlat lump palette
    rw [Array.getElem?_eq_none (by omega), List.getElem?_eq_none (by simpa using hi), Option.map_none]

/-- None of them is transparent. -/
theorem hasTransparency_ofFlat : (ofPicture (ofFlat lump) palette).hasTransparency = false := by
  rw [← Bool.not_eq_true, hasTransparency_iff]
  rintro ⟨p, hp, hclear⟩
  rw [← Array.mem_toList_iff, toList_ofPicture_ofFlat] at hp
  obtain ⟨i, -, rfl⟩ := List.mem_map.mp hp
  change (255 : UInt8) = 0 at hclear
  exact absurd hclear (by decide)

variable {palette}

/-- A drawn picture without transparent pixels has an indexed form, and no entry of it is set apart. -/
theorem exists_toIndexed?_of_opaque {picture : Picture}
    (h : (ofPicture picture palette).hasTransparency = false) :
    ∃ i, (ofPicture picture palette).toIndexed? = some i ∧ i.transparent = none := by
  have hfirsts : AreFirsts (seenColors (ofPicture picture palette).pixels.toList)
      (ofPicture picture palette).colors := areFirsts_eraseDups _
  have hfew : (ofPicture picture palette).colors.length ≤ Palette.maxColors := by
    rw [hfirsts.length_eq]
    exact card_seenColors_ofPicture_le picture palette
  have hreserved : (ofPicture picture palette).reserved = [] := by
    rw [reserved, if_neg (by simp [h])]
  rw [toIndexed?_eq, hreserved, if_neg (by simpa using hfew)]
  exact ⟨_, rfl, if_neg (by simp [h])⟩

/-- The entry of an opaque pixel is its colour. -/
theorem palette_indexOf {r : Raster} {i : Indexed} (hi : r.toIndexed? = some i) (hmask : r.IsMask)
    {p : Pixel} (hp : p ∈ r.pixels) (hseen : p.isClear = false) :
    i.palette[(r.indexOf p).toNat]? = some p.color := by
  have hshown := pixel?_indexOf hi hmask hp
  rw [Pixel.seen, if_neg (by simp [hseen])] at hshown
  obtain ⟨color, hcolor, hpixel⟩ := Option.map_eq_some_iff.mp hshown
  rw [hcolor]
  exact congrArg (some ·.color) hpixel

/-- Looking up the numbers of a drawn picture without transparent pixels gives the colours of the pixels. -/
theorem map_palette_indices {picture : Picture} {i : Indexed}
    (h : (ofPicture picture palette).hasTransparency = false)
    (hi : (ofPicture picture palette).toIndexed? = some i) :
    i.indices.map (i.palette[·.toNat]?) =
      (ofPicture picture palette).pixels.toList.map (some ·.color) := by
  rw [indices_of_toIndexed? hi, List.map_map]
  apply List.map_congr_left
  intro p hp
  have hp := Array.mem_toList_iff.mp hp
  have hseen : p.isClear = false := by
    rw [← Bool.not_eq_true]
    intro hclear
    rw [hasTransparency_of_mem hp hclear] at h
    contradiction
  exact palette_indexOf hi (Png.isMask_ofPicture picture palette) hp hseen

end Raster

/-! ### Exported flats -/

namespace Png

open Picture

/-- A picture that has an indexed form is exported in it. -/
theorem pixels_ofPicture_of_toIndexed? {picture : Picture} {palette : Palette} {i : Indexed}
    (hi : (Raster.ofPicture picture palette).toIndexed? = some i) :
    (ofPicture picture palette).pixels = .indexed i.palette (alphasOf i.transparent) i.indices := by
  unfold ofPicture
  dsimp only
  rw [hi]

/-- A drawn flat has 64 by 64 pixels. Row by row, each one is opaque and has the colour that the palette
gives to the byte at its place in the lump, or to 0 past the end of the lump. A flat is exported with a list of
colours and a number for each pixel, which stands for the colour of the pixel; the file has neither a
transparent entry nor an origin. -/
theorem ofPicture_ofFlat_keeps_rows (lump : ByteArray) (palette : Palette) :
    let r := Raster.ofPicture (ofFlat lump) palette
    let png := Png.ofPicture (ofFlat lump) palette
    (r.width = 64 ∧ r.height = 64 ∧
      r.pixels.toList = (List.range 4096).map fun i => ⟨palette.color (lump[i]?.getD 0), 255⟩) ∧
    ∃ colors indices, png.pixels = .indexed colors [] indices ∧
      indices.map (fun index => colors[index.toNat]?) =
        (List.range 4096).map (fun i => some (palette.color (lump[i]?.getD 0))) ∧
      png.chunks.map Chunk.type = ["IHDR", "PLTE", "IDAT", "IEND"] ∧ ofChunks? png.chunks = some png := by
  intro r png
  have hpixels := Raster.toList_ofPicture_ofFlat lump palette
  have hopaque := Raster.hasTransparency_ofFlat lump palette
  obtain ⟨i, hi, htransparent⟩ := Raster.exists_toIndexed?_of_opaque hopaque
  have hform : png.pixels = .indexed i.palette [] i.indices := by
    rw [pixels_ofPicture_of_toIndexed? hi, htransparent, alphasOf]
  refine ⟨⟨rfl, rfl, hpixels⟩, i.palette, i.indices, hform, ?_, ?_, ?_⟩
  · rw [Raster.map_palette_indices hopaque hi, hpixels, List.map_map]
    exact List.map_congr_left fun _ _ => rfl
  · rw [chunks, hform]
    rfl
  · exact ofChunks?_chunks png (toNat_lt_capacity (ofFlat lump).width)
      (toNat_lt_capacity (ofFlat lump).height)

end Png

end Interlude
