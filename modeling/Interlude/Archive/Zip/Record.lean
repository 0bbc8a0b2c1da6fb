import Interlude.Bytes.Order

/-!
# What a zip file tells of a member

Each member of a zip file has a record in the directory at the end of the file. Places are told
relative to the start of the zip file proper, which need not be the start of the file.
-/

namespace Interlude.Zip

/-- What the directory tells of a member. -/
structure Record where
  path : String
  /-- The path as the record writes it. -/
  pathBytes : List UInt8
  comment : String
  /-- The number of the way in which the data is packed. -/
  method : Nat
  /-- Whether the data is under the old cipher. -/
  encrypted : Bool
  /-- Whether the data is under a strong cipher. -/
  ciphered : Bool
  crc : UInt32
  packedSize : Nat
  size : Nat
  /-- Where the header of the member lies. -/
  header : Nat
  deriving DecidableEq, Repr

/-- The way of packing that is none. -/
def stored : Nat := 0

/-- The way of packing by back references and prefix codes. -/
def deflated : Nat := 8

/-- The number that stands for the real way of packing of data under a strong cipher. -/
def strongCipher : Nat := 99

/-- The number that stands in four bytes for one that does not fit. -/
def noRoom : Nat := 0xFFFFFFFF

/-- A number of `width` bytes at a place of the file. -/
def number (data : ByteArray) (position width : Nat) : Nat :=
  Bytes.ofLE (data.extract position (position + width)).data.toList

end Interlude.Zip
