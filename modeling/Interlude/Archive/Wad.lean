import Interlude.Archive.Error
import Interlude.Bytes.Cursor
import Interlude.Lump.Name

/-!
# WAD containers

A WAD is a header of twelve bytes, lumps anywhere in the file, and a directory of records of sixteen
bytes: position, size and name. Opening one checks the header and that the directory lies in the
file; a lump is looked for in the file only when it is asked for.
-/

namespace Interlude

/-- A record of a directory. Names repeat; a lump is known by its place in the directory. -/
structure LumpEntry where
  name : String
  /-- Where the lump begins; zero if it is not a plain run of the file. -/
  position : UInt32
  size : UInt32
  deriving DecidableEq, Repr

/-- A WAD held in memory. -/
structure Wad where
  data : ByteArray
  entries : List LumpEntry

namespace Wad

/-- The size of the header. -/
def headerSize : Nat := 12

/-- The size of a record of the directory. -/
def recordSize : Nat := 16

/-- The two ways in which a WAD may start: a whole game, or a patch to one. -/
def magics : List (List UInt8) :=
  ["IWAD".toUTF8.data.toList, "PWAD".toUTF8.data.toList]

/-- A record: position, size and name. -/
def entryOfRecord (record : List UInt8) : LumpEntry where
  position := .ofNat (Bytes.ofLE (record.take 4))
  size := .ofNat (Bytes.ofLE ((record.drop 4).take 4))
  name := Lump.nameOfBytes (record.drop 8)

/-- The bytes of a buffer from a position on, as far as there are any. -/
def slice (data : ByteArray) (position size : Nat) : ByteArray :=
  data.extract position (position + size)

/-- A number of the header, which must not be negative. -/
def headerNumber (data : ByteArray) (field : HeaderField) (position : Nat) :
    Except ArchiveError Nat :=
  let value := (UInt32.ofNat (Bytes.ofLE (slice data position 4).data.toList)).toInt32.toInt
  if value < 0 then .error (.negative field value) else .ok value.toNat

/-- The records of a directory. -/
def directory (data : ByteArray) (count offset : Nat) : List LumpEntry :=
  (List.range count).map fun i =>
    entryOfRecord (slice data (offset + i * recordSize) recordSize).data.toList

/-- Opens a WAD. -/
def ofBytes (data : ByteArray) : Except ArchiveError Wad := do
  if data.size < headerSize then throw .shortHeader
  let magic := (slice data 0 4).data.toList
  if magic ∉ magics then throw (.magic magic)
  let count ← headerNumber data .lumpCount 4
  let offset ← headerNumber data .directoryOffset 8
  if data.size < offset + count * recordSize then
    throw (.directoryOutside count offset data.size)
  return ⟨data, directory data count offset⟩

/-- The bytes of a lump. -/
def lump (w : Wad) (index : Nat) : Except ArchiveError ByteArray :=
  match w.entries[index]? with
  | none => .error (.noLump index)
  | some e =>
    if w.data.size < e.position.toNat + e.size.toNat then .error (.lumpOutside index e.name)
    else .ok (slice w.data e.position.toNat e.size.toNat)

end Wad

end Interlude
