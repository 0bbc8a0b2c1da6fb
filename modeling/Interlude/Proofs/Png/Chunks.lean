import Mathlib
import Interlude.Png

/-!
# Reading the chunks of an image

Reading the chunks of an image gives the image again, whichever of the two forms its pixels have, as
long as width and height fit into the header.
-/

namespace Interlude

/-- Unpacking the triples of packed colours gives the colours. -/
@[simp] theorem Rgb.ofTriples_flatMap_bytes (colors : List Rgb) :
    Rgb.ofTriples (colors.flatMap Rgb.bytes) = colors := by
  induction colors with
  | nil => rfl
  | cons c rest ih => simp [Rgb.bytes, Rgb.ofTriples, ih]

/-- Unpacking the bytes of pixels gives the pixels. -/
@[simp] theorem Pixel.ofBytes_flatMap_bytes (pixels : List Pixel) :
    Pixel.ofBytes (pixels.flatMap Pixel.bytes) = pixels := by
  induction pixels with
  | nil => rfl
  | cons p rest ih => simp [Pixel.bytes, Rgb.bytes, Pixel.ofBytes, ih]

namespace Png

/-- A number of 32 bits in two's complement survives its four bytes. -/
theorem toInt32_ofBE_toBE (x : Int32) :
    (UInt32.ofNat (Bytes.ofBE (Bytes.toBE 4 x.toUInt32.toNat))).toInt32 = x := by
  have hlt : x.toUInt32.toNat < Bytes.capacity 4 := x.toUInt32.toNat_lt
  rw [Bytes.ofBE_toBE, Nat.mod_eq_of_lt hlt, UInt32.ofNat_toNat]
  rfl

/-- The place of the origin takes eight bytes. -/
@[simp] theorem length_originBytes (x y : Int32) : (originBytes x y).length = 8 := by
  simp [originBytes]

/-- The first four bytes of a place are its column and the others its row. -/
theorem take_originBytes (x y : Int32) :
    (originBytes x y).take 4 = Bytes.toBE 4 x.toUInt32.toNat ∧
      (originBytes x y).drop 4 = Bytes.toBE 4 y.toUInt32.toNat := by
  simp [originBytes, List.take_left', List.drop_left']

/-- The end of an image is read back with its origin. -/
theorem finish?_originChunks (width height : Nat) (pixels : List UInt8 → Pixels) (bytes : List UInt8)
    (origin : Option (Int32 × Int32)) :
    ofChunks?.finish? width height pixels
        (originChunks origin ++ [⟨"IDAT", bytes⟩, ⟨"IEND", []⟩]) =
      some ⟨width, height, pixels bytes, origin⟩ := by
  cases origin with
  | none => rfl
  | some place =>
    obtain ⟨x, y⟩ := place
    simp only [originChunks, List.cons_append, List.nil_append, ofChunks?.finish?,
      take_originBytes, toInt32_ofBE_toBE]

/-- Width and height are read back from a header that has room for them. -/
theorem header_parts (p : Png) (hwidth : p.width < Bytes.capacity 4)
    (hheight : p.height < Bytes.capacity 4) :
    Bytes.ofBE (p.header.take 4) = p.width ∧ Bytes.ofBE ((p.header.drop 4).take 4) = p.height ∧
      p.header.drop 8 = [8, p.pixels.colorType, 0, 0, 0] := by
  have hsplit : p.header.take 4 = Bytes.toBE 4 p.width ∧
      p.header.drop 4 = Bytes.toBE 4 p.height ++ [8, p.pixels.colorType, 0, 0, 0] := by
    simp [header, List.append_assoc, List.take_left', List.drop_left']
  refine ⟨?_, ?_, ?_⟩
  · rw [hsplit.1, Bytes.ofBE_toBE, Nat.mod_eq_of_lt hwidth]
  · rw [hsplit.2, List.take_left' (Bytes.length_toBE 4 p.height), Bytes.ofBE_toBE,
      Nat.mod_eq_of_lt hheight]
  · have hdrop : p.header.drop 8 = (p.header.drop 4).drop 4 := by rw [List.drop_drop]
    rw [hdrop, hsplit.2, List.drop_left' (Bytes.length_toBE 4 p.height)]

/-- Reading the chunks of an image gives the image. -/
theorem ofChunks?_chunks (p : Png) (hwidth : p.width < Bytes.capacity 4)
    (hheight : p.height < Bytes.capacity 4) : ofChunks? p.chunks = some p := by
  obtain ⟨hw, hh, hkind⟩ := header_parts p hwidth hheight
  obtain ⟨width, height, pixels, origin⟩ := p
  have hfinish := fun pixels bytes => finish?_originChunks width height pixels bytes origin
  dsimp only at hw hh hkind
  cases pixels with
  | indexed palette alphas indices =>
    cases alphas with
    | nil =>
      -- What follows the palette is the origin or the pixels, and no list of opacities.
      cases origin with
      | none =>
        simpa [chunks, Pixels.paletteChunks, ofChunks?, hkind, hw, hh, Pixels.colorType,
          originChunks, Pixels.bytes] using hfinish (.indexed palette []) indices
      | some place =>
        simpa [chunks, Pixels.paletteChunks, ofChunks?, hkind, hw, hh, Pixels.colorType,
          originChunks, Pixels.bytes] using hfinish (.indexed palette []) indices
    | cons a alphas =>
      simpa [chunks, Pixels.paletteChunks, ofChunks?, hkind, hw, hh, Pixels.colorType,
        Pixels.bytes] using hfinish (.indexed palette (a :: alphas)) indices
  | rgba pixels =>
    simpa [chunks, Pixels.paletteChunks, ofChunks?, hkind, hw, hh, Pixels.colorType,
      Pixels.bytes] using hfinish (Pixels.rgba ∘ Pixel.ofBytes) (pixels.flatMap Pixel.bytes)

end Png

end Interlude
