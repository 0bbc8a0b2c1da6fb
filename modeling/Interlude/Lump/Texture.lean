import Interlude.Lump.Name

/-!
# Wall textures

A texture is composed of patches. The patch name lump lists the names that the placements of a
texture refer to by number.
-/

namespace Interlude

/-- A patch placed on a texture. -/
structure Placement where
  originX : Int16
  originY : Int16
  /-- The number of the patch in the list of patch names. -/
  patch : Int16
  stepDir : Int16
  colormap : Int16
  deriving DecidableEq, Repr

/-- A texture composed of patches. -/
structure Texture where
  name : String
  masked : Int32
  width : Int16
  height : Int16
  columnDirectory : Int32
  patches : List Placement
  deriving DecidableEq, Repr

namespace Lump

/-- A placement takes ten bytes. -/
def readPlacement : Reading Placement := do
  return {
    originX := ← Cursor.i16
    originY := ← Cursor.i16
    patch := ← Cursor.i16
    stepDir := ← Cursor.i16
    colormap := ← Cursor.i16 }

/-- A texture takes 22 bytes and its placements; a negative number of them counts as none. -/
def readTexture : Reading Texture := do
  let name ← readName
  let masked ← Cursor.i32
  let width ← Cursor.i16
  let height ← Cursor.i16
  let columnDirectory ← Cursor.i32
  let count ← Cursor.i16
  let patches ← Cursor.times count.toNatClampNeg readPlacement
  return { name, masked, width, height, columnDirectory, patches }

/-- The number of items at the start of a lump and the items; a negative number counts as none. -/
def readCounted (item : Reading α) : Reading (List α) := do
  let count ← Cursor.i32
  Cursor.times count.toNatClampNeg item

/-- The texture at an offset; a negative one lies past the end of every lump. -/
def textureAt (lump : ByteArray) (offset : Int32) : Except ReadError Texture :=
  if offset < 0 then .error (.unexpectedEnd lump.size)
  else Prod.fst <$> readTexture ⟨lump, offset.toNatClampNeg⟩

/-- The textures of a texture lump, which begins with the list of their offsets. -/
def readTextures (lump : ByteArray) : Except ReadError (List Texture) := do
  let (offsets, _) ← readCounted Cursor.i32 (.start lump)
  offsets.mapM (textureAt lump)

/-- The names of a patch name lump. -/
def readPatchNames (lump : ByteArray) : Except ReadError (List String) :=
  Prod.fst <$> readCounted readName (.start lump)

end Lump

end Interlude
