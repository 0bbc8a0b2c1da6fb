import Mathlib
import Interlude.Raster

/-!
# Looking indices up again

The indexed form of an image gives every seen colour a number of its own past the reserved entry.
Looking the numbers up in its palette therefore gives back every opaque pixel, and a clear pixel
wherever the image has a transparent one. A seen black pixel never falls on the reserved entry, which
is black as well.
-/

namespace Interlude

/-- What is left of a pixel when nothing can be seen behind its opacity: the colour of a transparent
pixel is not seen. -/
def Pixel.seen (p : Pixel) : Pixel :=
  if p.isClear then .clear else p

/-- The pixel that the number of a palette entry stands for. -/
def Indexed.pixel? (i : Indexed) (index : UInt8) : Option Pixel :=
  i.palette[index.toNat]?.map fun color => ⟨color, if i.transparent = some index then 0 else 255⟩

namespace Raster

/-- Every pixel is either fully transparent or fully opaque. -/
def IsMask (r : Raster) : Prop :=
  ∀ p ∈ r.pixels, p.alpha = 0 ∨ p.alpha = 255

/-- The entry that is set apart for transparent pixels, if the image has some. -/
def reserved (r : Raster) : List Rgb :=
  if r.hasTransparency then [.black] else []

/-- The number of the palette entry of a pixel. -/
def indexOf (r : Raster) (p : Pixel) : UInt8 :=
  if p.isClear then 0 else .ofNat (r.reserved.length + r.colors.idxOf p.color)

/-- The indexed form by its parts. -/
theorem toIndexed?_eq (r : Raster) :
    r.toIndexed? = if Palette.maxColors < r.reserved.length + r.colors.length then none else some {
      width := r.width
      height := r.height
      palette := r.reserved ++ r.colors
      transparent := if r.hasTransparency then some 0 else none
      indices := r.pixels.toList.map r.indexOf } := rfl

/-- The colour of a pixel that is seen is in the palette. -/
theorem color_mem_colors {r : Raster} {p : Pixel} (hp : p ∈ r.pixels) (hseen : p.isClear = false) :
    p.color ∈ r.colors := by
  rw [colors, List.mem_eraseDups, List.mem_map]
  exact ⟨p, List.mem_filter.mpr ⟨Array.mem_toList_iff.mpr hp, by simp [hseen]⟩, rfl⟩

/-- A transparent pixel is one for which an entry is set apart. -/
theorem hasTransparency_of_mem {r : Raster} {p : Pixel} (hp : p ∈ r.pixels)
    (hclear : p.isClear = true) : r.hasTransparency = true :=
  Array.any_eq_true'.mpr ⟨p, hp, hclear⟩

/-- An image with room for its colours gives a pixel the entry that its colour has past the reserved
one, with no wrap at the width of a byte. -/
theorem toNat_indexOf {r : Raster} {p : Pixel} (hp : p ∈ r.pixels) (hseen : p.isClear = false)
    (hroom : r.reserved.length + r.colors.length ≤ Palette.maxColors) :
    (r.indexOf p).toNat = r.reserved.length + r.colors.idxOf p.color := by
  have hlt := List.idxOf_lt_length_of_mem (color_mem_colors hp hseen)
  rw [indexOf, hseen, if_neg Bool.false_ne_true, UInt8.toNat_ofNat']
  exact Nat.mod_eq_of_lt (by unfold Palette.maxColors at hroom; omega)

/-- Looking up the number of a pixel gives what is seen of the pixel. -/
theorem pixel?_indexOf {r : Raster} {i : Indexed} (hi : r.toIndexed? = some i) (hmask : r.IsMask)
    {p : Pixel} (hp : p ∈ r.pixels) : i.pixel? (r.indexOf p) = some p.seen := by
  rw [toIndexed?_eq] at hi
  split at hi
  · contradiction
  · rename_i hroom
    obtain rfl := Option.some.inj hi
    unfold Indexed.pixel? Pixel.seen
    cases hseen : p.isClear with
    | true =>
      have htransparent := hasTransparency_of_mem hp hseen
      simp [indexOf, hseen, reserved, htransparent, Pixel.clear]
    | false =>
      have hlt := List.idxOf_lt_length_of_mem (color_mem_colors hp hseen)
      have hindex := toNat_indexOf hp hseen (Nat.le_of_not_lt hroom)
      have halpha : p.alpha = 255 := (hmask p hp).resolve_left (by simpa [Pixel.isClear] using hseen)
      have hopaque : (if r.hasTransparency = true then some (0 : UInt8) else none) ≠
          some (r.indexOf p) := by
        -- The reserved entry has the number 0, and the colours come after it.
        split
        · rename_i htransparent
          intro heq
          rw [← Option.some.inj heq, reserved, if_pos htransparent] at hindex
          simp at hindex
          omega
        · exact Option.some_ne_none _ ∘ Eq.symm
      rw [hindex, List.getElem?_append_right (Nat.le_add_right _ _), Nat.add_sub_cancel_left,
        List.getElem?_eq_getElem hlt, List.getElem_idxOf hlt, Option.map_some, if_neg hopaque,
        ← halpha]
      rfl

/-- The numbers of an indexed form are those of the pixels. -/
theorem indices_of_toIndexed? {r : Raster} {i : Indexed} (hi : r.toIndexed? = some i) :
    i.indices = r.pixels.toList.map r.indexOf := by
  rw [toIndexed?_eq] at hi
  split at hi
  · contradiction
  · exact (Option.some.inj hi) ▸ rfl

/-- Looking up all numbers of an indexed form gives what is seen of the image. -/
theorem mapM_pixel?_indices {r : Raster} {i : Indexed} (hi : r.toIndexed? = some i)
    (hmask : r.IsMask) : i.indices.mapM i.pixel? = some (r.pixels.toList.map Pixel.seen) := by
  have hindices := indices_of_toIndexed? hi
  suffices hpixels : ∀ pixels : List Pixel, (∀ p ∈ pixels, p ∈ r.pixels) →
      (pixels.map r.indexOf).mapM i.pixel? = some (pixels.map Pixel.seen) by
    rw [hindices]
    exact hpixels _ fun p hp => Array.mem_toList_iff.mp hp
  intro pixels hmem
  induction pixels with
  | nil => rfl
  | cons p rest ih =>
    rw [List.map_cons, List.mapM_cons, pixel?_indexOf hi hmask (hmem p List.mem_cons_self),
      ih fun q hq => hmem q (List.mem_cons_of_mem _ hq)]
    rfl

end Raster

end Interlude
