import Interlude.Picture.Basic

/-!
# Flats

A flat is a square of 64 by 64 pixels, stored row by row without a header.
-/

namespace Interlude.Picture

/-- The length of the sides of a flat. -/
def flatSize : Nat := 64

/-- The pixel of a flat at a column and a row; a flat that is too short is filled up with 0. -/
def flatPixel (lump : ByteArray) (column row : Nat) : UInt8 :=
  lump[row * flatSize + column]?.getD 0

/-- A flat as a picture with one run for each column. -/
def ofFlat (lump : ByteArray) : Picture where
  width := .ofNat flatSize
  height := .ofNat flatSize
  left := 0
  top := 0
  posts := (List.range flatSize).map fun column =>
    { column := .ofNat column
      rowStart := 0
      pixels := (List.range flatSize).map (flatPixel lump column) }

end Interlude.Picture
