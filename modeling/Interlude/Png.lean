import Interlude.Bytes.Zlib
import Interlude.Raster

/-!
# PNG files

An image is a list of chunks: a header, the palette with the opacities of its first entries if the
pixels are indexed, the place of the origin, the pixels, and an end mark. In a file each chunk has
a length and a checksum, and the pixels are compressed. What chunks describe is read beside writing them.
-/

namespace Interlude

/-- The pixels of an image in one of the two forms that are written. -/
inductive Png.Pixels where
  /-- Numbers of palette entries; entries past the end of `alphas` are opaque. -/
  | indexed (palette : List Rgb) (alphas : List UInt8) (indices : List UInt8)
  /-- Colours with opacities. -/
  | rgba (pixels : List Pixel)
  deriving DecidableEq, Repr

/-- An image with the place of its origin, if that is not the corner. -/
structure Png where
  width : Nat
  height : Nat
  pixels : Png.Pixels
  origin : Option (Int32 × Int32)
  deriving DecidableEq, Repr

namespace Png

/-- A part of a file with the four letters that say what it holds. -/
structure Chunk where
  type : String
  data : List UInt8
  deriving DecidableEq, Repr

/-- The pixel bytes, row by row. -/
def Pixels.bytes : Pixels → List UInt8
  | .indexed _ _ indices => indices
  | .rgba pixels => pixels.flatMap Pixel.bytes

/-- The number of bytes of a pixel. -/
def Pixels.pixelSize : Pixels → Nat
  | .indexed .. => 1
  | .rgba _ => 4

/-- The number that says how pixels are stored. -/
def Pixels.colorType : Pixels → UInt8
  | .indexed .. => 3
  | .rgba _ => 6

/-- The header: width, height, eight bits a sample, the kind of pixels, and no further methods. -/
def header (p : Png) : List UInt8 :=
  Bytes.toBE 4 p.width ++ Bytes.toBE 4 p.height ++ [8, p.pixels.colorType, 0, 0, 0]

/-- The palette and the opacities of its entries. -/
def Pixels.paletteChunks : Pixels → List Chunk
  | .indexed palette [] _ => [⟨"PLTE", palette.flatMap Rgb.bytes⟩]
  | .indexed palette alphas _ => [⟨"PLTE", palette.flatMap Rgb.bytes⟩, ⟨"tRNS", alphas⟩]
  | .rgba _ => []

/-- The place of the origin as two numbers in two's complement. -/
def originBytes (x y : Int32) : List UInt8 :=
  Bytes.toBE 4 x.toUInt32.toNat ++ Bytes.toBE 4 y.toUInt32.toNat

/-- The place of the origin, if the image has one. -/
def originChunks : Option (Int32 × Int32) → List Chunk
  | none => []
  | some (x, y) => [⟨"grAb", originBytes x y⟩]

/-- The chunks of an image in the order of a file; the pixels are not yet compressed. -/
def chunks (p : Png) : List Chunk :=
  ⟨"IHDR", p.header⟩ :: p.pixels.paletteChunks ++ originChunks p.origin ++
    [⟨"IDAT", p.pixels.bytes⟩, ⟨"IEND", []⟩]

/-- Whether the format has room for the size of the image. -/
def hasArea (p : Png) : Bool :=
  0 < p.width && 0 < p.height

/-- The origin of a picture, if it is not the corner. -/
def originOf (picture : Picture) : Option (Int32 × Int32) :=
  if picture.hasOffset then some (picture.left.toInt32, picture.top.toInt32) else none

/-- The opacities of the entries up to the transparent one. -/
def alphasOf : Option UInt8 → List UInt8
  | none => []
  | some i => List.replicate i.toNat 255 ++ [0]

/-- A picture as an image: indexed if its colours are few enough. -/
def ofPicture (picture : Picture) (palette : Palette) : Png :=
  let raster := Raster.ofPicture picture palette
  { width := raster.width
    height := raster.height
    pixels :=
      match raster.toIndexed? with
      | some i => .indexed i.palette (alphasOf i.transparent) i.indices
      | none => .rgba raster.pixels.toList
    origin := originOf picture }

/-- The image that chunks in the order of a file describe. -/
def ofChunks? : List Chunk → Option Png
  | ⟨"IHDR", header⟩ :: rest =>
    let width := Bytes.ofBE (header.take 4)
    let height := Bytes.ofBE ((header.drop 4).take 4)
    match header.drop 8 with
    | [8, 3, 0, 0, 0] => do
      let ⟨"PLTE", entries⟩ :: rest := rest | none
      let palette := Rgb.ofTriples entries
      match rest with
      | ⟨"tRNS", alphas⟩ :: rest => finish? width height (.indexed palette alphas) rest
      | rest => finish? width height (.indexed palette []) rest
    | [8, 6, 0, 0, 0] => finish? width height (.rgba ∘ Pixel.ofBytes) rest
    | _ => none
  | _ => none
where
  /-- The place of the origin, the pixels and the end. -/
  finish? (width height : Nat) (pixels : List UInt8 → Pixels) : List Chunk → Option Png
    | [⟨"IDAT", bytes⟩, ⟨"IEND", []⟩] => some ⟨width, height, pixels bytes, none⟩
    | [⟨"grAb", origin⟩, ⟨"IDAT", bytes⟩, ⟨"IEND", []⟩] =>
      let x := Bytes.ofBE (origin.take 4)
      let y := Bytes.ofBE (origin.drop 4)
      some ⟨width, height, pixels bytes, some ((UInt32.ofNat x).toInt32, (UInt32.ofNat y).toInt32)⟩
    | _ => none

/-! ### Files -/

/-- The bytes at the start of every file. -/
def signature : List UInt8 := [0x89, 0x50, 0x4E, 0x47, 0x0D, 0x0A, 0x1A, 0x0A]

/-- Whether a lump begins like a file of this format. -/
def isFile (lump : ByteArray) : Bool :=
  (lump.extract 0 8).data.toList == signature

/-- A chunk in a file: its length, its letters, its data, and a checksum of the letters and data. -/
def Chunk.bytes (c : Chunk) : List UInt8 :=
  let body := c.type.toList.map (fun l => UInt8.ofNat l.toNat) ++ c.data
  Bytes.toBE 4 c.data.length ++ body ++ Bytes.toBE 4 (Bytes.crc32 body).toNat

/-- The pixel bytes with a byte before each row that says that the row is stored as it is. -/
def filterRows (rowSize : Nat) (bytes : List UInt8) : List UInt8 :=
  (Bytes.chunks rowSize bytes).flatMap (0 :: ·)

/-- The bytes of a row of an image. -/
def rowSize (p : Png) : Nat :=
  p.width * p.pixels.pixelSize

/-- A chunk of an image as it stands in a file. -/
def packChunk (rowSize : Nat) (c : Chunk) : Chunk :=
  if c.type = "IDAT" then { c with data := Zlib.encode (filterRows rowSize c.data) } else c

/-- The file of an image. -/
def toFile (p : Png) : ByteArray :=
  (signature ++ p.chunks.flatMap fun c => (packChunk p.rowSize c).bytes).toByteArray

end Png

end Interlude
