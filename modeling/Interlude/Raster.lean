import Interlude.Palette
import Interlude.Picture.Basic

/-!
# Images of pixels

A `Raster` holds a colour and an opacity for every pixel, row by row. A picture is drawn into one
through a palette. An image of few colours has an indexed form, in which the transparent pixels,
if there are any, share the entry 0.
-/

namespace Interlude

/-- A colour with an opacity from 0, transparent, to 255. -/
structure Pixel where
  color : Rgb
  alpha : UInt8
  deriving DecidableEq, Repr

namespace Pixel

/-- A pixel that nothing covers. -/
def clear : Pixel := ⟨.black, 0⟩

/-- A pixel that shows a colour. -/
def solid (color : Rgb) : Pixel := ⟨color, 255⟩

/-- Whether nothing of the pixel is seen. -/
def isClear (p : Pixel) : Bool := p.alpha == 0

/-- The four bytes of a pixel. -/
def bytes (p : Pixel) : List UInt8 := p.color.bytes ++ [p.alpha]

/-- The pixels of packed bytes; an incomplete one at the end is dropped. -/
def ofBytes : List UInt8 → List Pixel
  | r :: g :: b :: a :: rest => ⟨⟨r, g, b⟩, a⟩ :: ofBytes rest
  | _ => []

end Pixel

/-- The pixels of an image, row by row. -/
structure Raster where
  width : Nat
  height : Nat
  pixels : Array Pixel
  deriving DecidableEq, Repr

/-- An image as numbers of palette entries, with the entry for transparent pixels if it has one. -/
structure Indexed where
  width : Nat
  height : Nat
  palette : List Rgb
  transparent : Option UInt8
  indices : List UInt8
  deriving DecidableEq, Repr

namespace Raster

/-- Draws a run of pixels downwards from a row, as far as the image reaches. -/
def drawRun (palette : Palette) (width height column row : Nat) :
    List UInt8 → Array Pixel → Array Pixel
  | [], pixels => pixels
  | value :: rest, pixels =>
    if row < height then
      drawRun palette width height column (row + 1) rest
        (pixels.setIfInBounds (row * width + column) (.solid (palette.color value)))
    else pixels

/-- Draws a run of a picture; one that lies beside the image leaves it as it is. -/
def drawPost (palette : Palette) (width height : Nat) (pixels : Array Pixel) (post : Post) :
    Array Pixel :=
  if post.column.toNat < width then
    drawRun palette width height post.column.toNat post.rowStart.toNat post.pixels pixels
  else pixels

/-- Draws the runs of a picture one over the other. -/
def ofPicture (picture : Picture) (palette : Palette) : Raster :=
  let width := picture.width.toNat
  let height := picture.height.toNat
  { width, height
    pixels := picture.posts.foldl (drawPost palette width height)
      (Array.replicate (width * height) .clear) }

/-- The pixel at a place. -/
def pixel? (r : Raster) (x y : Nat) : Option Pixel :=
  r.pixels[y * r.width + x]?

/-- Whether some pixel is transparent. -/
def hasTransparency (r : Raster) : Bool :=
  r.pixels.any Pixel.isClear

/-- The colours of the pixels that are seen, each one once, in order of first appearance. -/
def colors (r : Raster) : List Rgb :=
  ((r.pixels.toList.filter (!·.isClear)).map Pixel.color).eraseDups

/-- The indexed form: the entry for transparent pixels, if there is a need for one, and then the
colours. There is none if that takes more than 256 entries. -/
def toIndexed? (r : Raster) : Option Indexed :=
  let reserved : List Rgb := if r.hasTransparency then [.black] else []
  let colors := r.colors
  if Palette.maxColors < reserved.length + colors.length then none
  else some {
    width := r.width
    height := r.height
    palette := reserved ++ colors
    transparent := if r.hasTransparency then some 0 else none
    indices := r.pixels.toList.map fun p =>
      if p.isClear then 0 else .ofNat (reserved.length + colors.idxOf p.color) }

end Raster

end Interlude
