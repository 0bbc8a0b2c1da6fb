import Interlude.Archive.Zip.Record
import Interlude.Bytes.Checksum

/-!
# Extra fields of a record

A record may carry further fields, each with a kind, a length and a content, that correct what the
record tells: numbers that need eight bytes, a path in UTF-8, the real way of packing of data under
a strong cipher. A field that breaks its format spoils the record. Where the fields end in the
middle of one, the record keeps what was read up to there.
-/

namespace Interlude.Zip.Extra

/-- Why the reading of fields ends early. -/
inductive Fault where
  /-- The bytes end in the middle of a field. -/
  | cutOff
  /-- A field breaks its format. -/
  | invalid
  deriving DecidableEq, Repr

/-- The bytes that are left, and the record with the corrections made so far. -/
structure State where
  rest : List UInt8
  record : Record

/-- A step over the fields. What it has corrected before a fault stays corrected. -/
abbrev Step := ExceptT Fault (StateM State)

/-- The next `n` bytes. -/
def take (n : Nat) : Step (List UInt8) := do
  let s ← get
  if s.rest.length < n then throw .cutOff
  set { s with rest := s.rest.drop n }
  return s.rest.take n

/-- Passes over `n` bytes. -/
def skip (n : Nat) : Step Unit := do
  let _ ← take n

/-- The next `width` bytes as a number. -/
def number (width : Nat) : Step Nat :=
  Bytes.ofLE <$> take width

/-- A rule of the format. -/
def require (rule : Prop) [Decidable rule] : Step Unit :=
  if rule then return else throw .invalid

/-- Corrects the record. -/
def correct (f : Record → Record) : Step Unit :=
  modify fun s => { s with record := f s.record }

/-- A field that may hold all wide numbers holds each of them; a shorter one holds those for which
the record has no room. -/
def isWide (length n : Nat) : Bool :=
  24 ≤ length || n == noRoom

/-- The sizes and the place of the header as numbers of eight bytes. -/
def wideNumbers (length : Nat) : Step Unit := do
  let old := (← get).record
  if isWide length old.size then
    let size ← number 8
    correct ({ · with size })
  if isWide length old.packedSize then
    let packedSize ← number 8
    correct ({ · with packedSize })
  if isWide length old.header then
    let header ← number 8
    correct ({ · with header })
  let used := 8 * ([old.size, old.packedSize, old.header].filter (isWide length)).length
  require (used ≤ length)
  skip (length - used)

/-- Times in units of a tenth of a microsecond, under the only tag that there is. -/
def fineTimes (length : Nat) : Step Unit := do
  require (length = 32)
  skip 4
  require ((← number 2) = 1)
  require ((← number 2) = 24)
  skip 24

/-- The strength of a strong cipher and the way in which the data under it is packed. -/
def cipher (length : Nat) : Step Unit := do
  require (length = 7)
  let version ← number 2
  let vendor ← number 2
  let strength ← number 1
  let method ← number 2
  require (vendor = 0x4541)
  require (version = 1 ∨ version = 2)
  require (1 ≤ strength ∧ strength ≤ 3)
  correct ({ · with method, ciphered := true })

/-- Times in seconds: a flag for each of three, and those that have their flag set. A field with
room for one time holds one, whatever its flags are. -/
def times (length : Nat) : Step Unit := do
  let flags ← number 1
  let told := ((List.range 8).filter flags.testBit).length
  require (length = 5 ∨ length = 1 + 4 * told)
  require (flags < 8)
  skip (length - 1)

/-- A text in UTF-8 that replaces another one, guarded by the checksum of the one replaced. -/
def replacement (length : Nat) (replaced : List UInt8) : Step (String × List UInt8) := do
  skip 1
  let crc ← number 4
  require (5 ≤ length)
  let bytes ← take (length - 5)
  require (crc = (Bytes.crc32 replaced).toNat)
  match String.fromUTF8? bytes.toByteArray with
  | some text => return (text, bytes)
  | none => throw .invalid

/-- A field of a kind. A field of an unknown kind is passed over. -/
def field (kind length : Nat) : Step Unit := do
  match kind with
  | 0x0001 => wideNumbers length
  | 0x000A => fineTimes length
  | 0x5455 => times length
  | 0x6375 =>
    let (comment, _) ← replacement length (← get).record.comment.toUTF8.data.toList
    correct ({ · with comment })
  | 0x7075 =>
    let (path, pathBytes) ← replacement length (← get).record.pathBytes
    correct ({ · with path, pathBytes })
  | 0x9901 => cipher length
  | _ => skip length

/-- The fields up to the end, where a single byte may be left over. Every round reads a field, so
`rounds` need not be more than the bytes. -/
def fields : (rounds : Nat) → Step Unit
  | 0 => return
  | rounds + 1 => do
    let left := (← get).rest.length
    if left < 2 then return
    require (4 ≤ left)
    let kind ← number 2
    let length ← number 2
    field kind length
    fields rounds

end Interlude.Zip.Extra

namespace Interlude.Zip

/-- The record with the corrections of its extra fields, unless one of them spoils it. -/
def Record.corrected? (r : Record) (extra : List UInt8) : Option Record :=
  match (Extra.fields extra.length).run.run ⟨extra, r⟩ with
  | (.error .invalid, _) => none
  | (_, s) => some s.record

end Interlude.Zip
