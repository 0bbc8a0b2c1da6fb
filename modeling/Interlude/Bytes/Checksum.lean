/-!
# Checksums

The two sums that guard data in archives and images: the remainder of division by a polynomial
over the field of two elements (`crc32`), and a pair of running sums (`adler32`).
-/

namespace Interlude.Bytes

/-- Divides one bit out of the register. -/
def crcBit (crc : UInt32) : UInt32 :=
  if crc &&& 1 = 1 then (crc >>> 1) ^^^ 0xEDB88320 else crc >>> 1

/-- Takes a byte into the register. -/
def crcByte (crc : UInt32) (b : UInt8) : UInt32 :=
  let x := crc ^^^ b.toUInt32
  crcBit (crcBit (crcBit (crcBit (crcBit (crcBit (crcBit (crcBit x)))))))

/-- The cyclic redundancy check of a run of bytes. -/
def crc32 (bytes : List UInt8) : UInt32 :=
  (bytes.foldl crcByte 0xFFFFFFFF) ^^^ 0xFFFFFFFF

/-- The sum of the bytes and the sum of those sums, modulo the largest prime below 65536. -/
def adler32 (bytes : List UInt8) : UInt32 :=
  let (a, b) := bytes.foldl (fun (a, b) x =>
    let a := (a + x.toNat) % 65521
    (a, (b + a) % 65521)) (1, 0)
  .ofNat (b * 65536 + a)

end Interlude.Bytes
