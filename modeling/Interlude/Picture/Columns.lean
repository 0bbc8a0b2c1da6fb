import Interlude.Bytes.Cursor
import Interlude.Picture.Basic

/-!
# Pictures stored by columns

A picture lump is a header of four 16-bit numbers, one 32-bit offset for each column, and for
each column a list of runs: a row, a count, a byte to ignore, the pixels, and another byte to
ignore. A row of 255 ends the column. The format has no mark of its own, so a lump is a picture
exactly if it can be read as one.
-/

namespace Interlude.Picture

/-- The size of the header in bytes. -/
def headerSize : Nat := 8

/-- The row number that ends a column. -/
def endOfColumn : UInt8 := 0xFF

/-- Width, height, and the place of the origin. -/
def readHeader : Reading (Int16 × Int16 × Int16 × Int16) := do
  return (← Cursor.i16, ← Cursor.i16, ← Cursor.i16, ← Cursor.i16)

/-- The next run of a column, or nothing at its end. -/
def readRun : Reading (Option (UInt8 × List UInt8)) := do
  let row ← Cursor.u8
  if row = endOfColumn then return none
  let count ← Cursor.u8
  Cursor.skip 1
  let pixels ← Cursor.take count.toNat
  Cursor.skip 1
  return some (row, pixels)

/-- The runs of a column that has room for `room` pixels. The column ends with the run that fills
it up, which is cut to the room; a run without pixels is no run. -/
def columnPosts (column : UInt16) (room : Nat) (c : Cursor) : Option (List Post) :=
  match readRun c with
  | .error _ => none
  | .ok (none, _) => some []
  | .ok (some (row, pixels), c') =>
    if _ : pixels.length = 0 then none
    else
      let post : Post := ⟨column, row.toUInt16, pixels.take room⟩
      if _ : room ≤ pixels.length then some [post]
      else (columnPosts column (room - pixels.length) c').map (post :: ·)
termination_by room

/-- The offset of a column from the start of the lump. -/
def columnOffset? (lump : ByteArray) (column : Nat) : Option Nat :=
  match Cursor.i32 ⟨lump, headerSize + 4 * column⟩ with
  | .error _ => none
  | .ok (offset, _) => if offset < 0 then none else some offset.toNatClampNeg

/-- The runs of a column. -/
def column? (lump : ByteArray) (height : Nat) (column : Nat) : Option (List Post) := do
  let offset ← columnOffset? lump column
  columnPosts (.ofNat column) height ⟨lump, offset⟩

/-- The picture that a lump holds, if it holds one. -/
def decode? (lump : ByteArray) : Option Picture :=
  match readHeader (.start lump) with
  | .error _ => none
  | .ok ((width, height, left, top), _) =>
    if width ≤ 0 ∨ height ≤ 0 then none
    else do
      let columns ← (List.range width.toNatClampNeg).mapM (column? lump height.toNatClampNeg)
      return {
        width := width.toUInt16
        height := height.toUInt16
        left, top
        posts := columns.flatten }

end Interlude.Picture
