import Interlude.Bytes.Checksum
import Interlude.Bytes.Chunk
import Interlude.Bytes.Order

/-!
# Zlib streams

A zlib stream is a deflate stream between a header of two bytes and a checksum of what it holds.
Streams are written here with stored blocks only.
-/

namespace Interlude.Zlib

/-- The most bytes that a stored block holds. -/
def maxStored : Nat := 65535

/-- A stored block, marked as the last one or not. -/
def storedBlock (last : Bool) (bytes : List UInt8) : List UInt8 :=
  (if last then 1 else 0) :: (Bytes.toLE 2 bytes.length ++
    Bytes.toLE 2 (maxStored - bytes.length) ++ bytes)

/-- The blocks of a stream with the given runs of bytes, of which the last is the last block. -/
def storedBlocks : List (List UInt8) → List UInt8
  | [] => storedBlock true []
  | [run] => storedBlock true run
  | run :: rest => storedBlock false run ++ storedBlocks rest

/-- The stream that holds the bytes. -/
def encode (bytes : List UInt8) : List UInt8 :=
  [0x78, 0x01] ++ storedBlocks (Bytes.chunks maxStored bytes) ++
    Bytes.toBE 4 (Bytes.adler32 bytes).toNat

end Interlude.Zlib
