import Interlude.Bytes.Chunk

/-!
# Palettes

A palette gives up to 256 pixel values their colours. A value that a short palette leaves out is
black.
-/

namespace Interlude

/-- A colour with eight bits for each of red, green and blue. -/
structure Rgb where
  r : UInt8
  g : UInt8
  b : UInt8
  deriving DecidableEq, Repr

/-- The colour with no light in it. -/
def Rgb.black : Rgb := ⟨0, 0, 0⟩

/-- The three bytes of a colour. -/
def Rgb.bytes (c : Rgb) : List UInt8 := [c.r, c.g, c.b]

/-- The colours of packed triples of bytes; a rest of fewer than three bytes is left out. -/
def Rgb.ofTriples : List UInt8 → List Rgb
  | r :: g :: b :: rest => ⟨r, g, b⟩ :: ofTriples rest
  | _ => []

/-- The colours of the pixel values 0, 1, 2, and so on. -/
structure Palette where
  colors : Array Rgb
  deriving DecidableEq, Repr

namespace Palette

/-- The number of pixel values. -/
def maxColors : Nat := 256

/-- The bytes that a full palette takes up in a lump. -/
def byteSize : Nat := maxColors * 3

/-- The palette of packed triples, up to the 256th. -/
def ofBytes (bytes : List UInt8) : Palette :=
  ⟨(Rgb.ofTriples (bytes.take byteSize)).toArray⟩

/-- The ramp from black to white on which every value is its own brightness. -/
def grayscale : Palette :=
  ⟨((List.range maxColors).map fun v => ⟨.ofNat v, .ofNat v, .ofNat v⟩).toArray⟩

/-- The colour of a pixel value. -/
def color (p : Palette) (value : UInt8) : Rgb :=
  p.colors[value.toNat]?.getD .black

/-- The packed triples of a palette. -/
def bytes (p : Palette) : List UInt8 :=
  p.colors.toList.flatMap Rgb.bytes

/-- The palettes of a palette lump, which holds them one after the other. -/
def readAll (lump : ByteArray) : List Palette :=
  ((Bytes.chunks byteSize lump.data.toList).map ofBytes).filter (!·.colors.isEmpty)

end Palette

/-- The light level maps of a colour map lump, 256 bytes each. -/
def readColormaps (lump : ByteArray) : List (List UInt8) :=
  Bytes.chunks 256 lump.data.toList

end Interlude
