import Interlude.Archive.Zip.Extra
import Interlude.Text.CodePage437
import Interlude.Text.Utf8

/-!
# The directory of a zip file

A zip file ends with a record that tells where its directory lies. In a large file it is preceded by
a locator, which tells where a wide form of that record lies. Bytes before the first member and
after the end record belong to nothing, so that all places are told relative to the place where the
directory, or the wide end record, is found.

Anything may look like an end record. The last one in the file that leads to a directory counts.
-/

namespace Interlude.Zip

/-- Where the directory of a zip file lies. -/
structure Directory where
  /-- The place of the first record. -/
  start : Nat
  /-- The number of bytes before the zip file proper. -/
  shift : Nat
  /-- The number of records. -/
  count : Nat
  deriving DecidableEq, Repr

/-- The mark of the end record. -/
def endMark : Nat := 0x06054B50

/-- The mark of the wide end record. -/
def wideEndMark : Nat := 0x06064B50

/-- The mark of the locator of the wide end record. -/
def locatorMark : Nat := 0x07064B50

/-- The mark of a record of the directory. -/
def directoryMark : Nat := 0x02014B50

/-- The size of the end record without the comment. -/
def endSize : Nat := 22

/-- The size of the wide end record without the data that may follow it. -/
def wideEndSize : Nat := 56

/-- The size of the locator. -/
def locatorSize : Nat := 20

/-- The size of a record of the directory without path, extra fields and comment. -/
def recordSize : Nat := 46

/-- The first place from `low` on and before `high` at which a mark stands that passes a test. -/
def findMark? (data : ByteArray) (mark low high : Nat) (test : Nat → Bool) : Option Nat :=
  ((List.range (high - 3 - low)).find? fun i =>
    number data (low + i) 4 = mark && test (low + i)).map (low + ·)

/-- The directory that an end record tells of. An empty one lies right before the end record. -/
def Directory.ofEnd? (data : ByteArray) (position : Nat) : Option Directory := do
  let told := number data (position + 16) 4
  guard (number data (position + 4) 2 = number data (position + 6) 2)
  let start ←
    if number data (position + 10) 2 = 0 then some (max told position)
    else if told < position then findMark? data directoryMark told position fun _ => true
    else none
  return ⟨start, start - told, number data (position + 8) 2⟩

/-- Whether the record at a place is a wide end record that reaches up to its locator, names the
same volume, and leaves room for the directory before it. -/
def isWideEnd (data : ByteArray) (locator place : Nat) : Bool :=
  let field (offset width : Nat) : Nat := number data (place + offset) width
  wideEndSize ≤ field 4 8 + 12 && field 4 8 + 12 == locator - place &&
    field 20 4 == number data (locator + 4) 4 &&
    field 32 8 * recordSize + field 48 8 ≤ place

/-- The directory that the wide end record of a locator tells of. -/
def Directory.ofLocator? (data : ByteArray) (locator : Nat) : Option Directory := do
  let told := number data (locator + 8) 8
  guard (told < locator ∧ number data (locator + 16) 4 ≤ 1)
  let place ← findMark? data wideEndMark told locator (isWideEnd data locator)
  let field (offset width : Nat) : Nat := number data (place + offset) width
  guard (field 24 8 ≤ field 32 8 ∧ field 14 2 ≤ field 12 2 ∧ field 16 4 = field 20 4)
  return ⟨field 48 8 + (place - told), place - told, field 32 8⟩

/-- Whether an end record has no room for one of its numbers and follows a locator. -/
def hasLocator (data : ByteArray) (position : Nat) : Bool :=
  (number data (position + 10) 2 == 0xFFFF || number data (position + 16) 4 == noRoom) &&
    locatorSize ≤ position && number data (position - locatorSize) 4 == locatorMark

/-- The directory that an end record at a place leads to, if one stands there. -/
def Directory.at? (data : ByteArray) (position : Nat) : Option Directory := do
  guard (position + endSize ≤ data.size ∧ number data position 4 = endMark)
  guard (position + endSize + number data (position + 20) 2 ≤ data.size)
  if hasLocator data position then ofLocator? data (position - locatorSize)
  else ofEnd? data position

/-- A text of a record, in UTF-8 if its flags say so and else in the old code page. -/
def textOf (flags : Nat) (bytes : List UInt8) : String :=
  if flags.testBit 11 then Utf8.text bytes else String.ofList (bytes.map CodePage437.textChar)

/-- The record at a place of the directory, and the place after it. -/
def Directory.record? (d : Directory) (data : ByteArray) (position : Nat) :
    Option (Record × Nat) := do
  guard (position + recordSize ≤ data.size ∧ number data position 4 = directoryMark)
  let field (offset width : Nat) : Nat := number data (position + offset) width
  let pathEnd := position + recordSize + field 28 2
  let extraEnd := pathEnd + field 30 2
  let next := extraEnd + field 32 2
  guard (next ≤ data.size)
  let run (first last : Nat) : List UInt8 := (data.extract first last).data.toList
  let flags := field 8 2
  let pathBytes := run (position + recordSize) pathEnd
  let told : Record := {
    path := textOf flags pathBytes
    pathBytes
    comment := textOf flags (run extraEnd next)
    method := field 10 2
    encrypted := flags.testBit 0
    ciphered := false
    crc := .ofNat (field 16 4)
    packedSize := field 20 4
    size := field 24 4
    header := field 42 4 }
  let r ← told.corrected? (run pathEnd extraEnd)
  guard (r.method = strongCipher → r.ciphered)
  guard (r.header + d.shift < Bytes.capacity 8)
  return ({ r with header := r.header + d.shift }, next)

/-- The records of `count` members from a place of the directory on. -/
def Directory.records? (d : Directory) (data : ByteArray) : (count position : Nat) →
    Option (List Record)
  | 0, _ => some []
  | count + 1, position => do
    let (r, next) ← d.record? data position
    return r :: (← d.records? data count next)

/-- The records of the directory in their order. -/
def recordsOf? (data : ByteArray) : Option (List Record) :=
  (List.range (data.size + 1 - endSize)).reverse.findSome? fun position => do
    let d ← Directory.at? data position
    d.records? data d.count d.start

end Interlude.Zip
