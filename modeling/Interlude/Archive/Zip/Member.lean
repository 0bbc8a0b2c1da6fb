import Interlude.Archive.Error
import Interlude.Archive.Zip.Directory
import Interlude.Bytes.Inflate

/-!
# Members of a zip file

A member is a record of the directory together with the place of its data, which follows a header of
its own. Data is read if it is stored as it is or deflated, and if it lies under no cipher.
-/

namespace Interlude.Zip

/-- A member of a zip file. -/
structure Member extends Record where
  /-- Where the packed data begins in the file. -/
  start : Nat
  deriving DecidableEq, Repr

/-- The mark of the header of a member. -/
def headerMark : Nat := 0x04034B50

/-- The size of the header of a member without path and extra fields. -/
def headerSize : Nat := 30

/-- The member of a record, if there is a header where the record tells. -/
def Record.member? (data : ByteArray) (r : Record) : Option Member := do
  guard (r.header + headerSize ≤ data.size ∧ number data r.header 4 = headerMark)
  let pathSize := number data (r.header + 26) 2
  let extraSize := number data (r.header + 28) 2
  return { r with start := r.header + headerSize + pathSize + extraSize }

/-- Puts a record in the place of one with its path, or else at the end. -/
def put (r : Record) : List Record → List Record
  | [] => [r]
  | other :: rest => if other.path = r.path then r :: rest else other :: put r rest

/-- Of two records with one path the later one counts, at the place of the earlier one. -/
def unite (records : List Record) : List Record :=
  records.foldl (fun united r => put r united) []

/-- The members in the order of the directory. -/
def membersOf? (data : ByteArray) : Option (List Member) := do
  (unite (← recordsOf? data)).mapM (Record.member? data)

/-- Whether a member is a folder. -/
def Member.isFolder (m : Member) : Bool :=
  match m.path.toList.getLast? with
  | some c => c == '/' || c == '\\'
  | none => false

/-- Whether a member can be opened: it lies under no cipher, and the way in which it is packed is known. -/
def Member.canOpen (m : Member) : Bool :=
  !m.encrypted && !m.ciphered && (m.method == stored || m.method == deflated)

/-- The data of a member as the method unpacks it. Packed data that the end of the file cuts off is
what is left of it. -/
def Member.unpacked (m : Member) (data : ByteArray) : Except ArchiveError ByteArray :=
  let packed := data.extract m.start (min (m.start + m.packedSize) data.size)
  if m.encrypted || m.ciphered then .error .zip
  else if m.method = stored then .ok packed
  else if m.method = deflated then
    match inflate? packed 0 with
    | some out => .ok out.bytes
    | none => .error (.member m.path .corrupt)
  else .error .zip

/-- The data of a member, which must have the checksum that is told. -/
def Member.bytes (m : Member) (data : ByteArray) : Except ArchiveError ByteArray := do
  let bytes ← m.unpacked data
  if Bytes.crc32 bytes.data.toList ≠ m.crc then throw (.member m.path .checksum)
  return bytes

end Interlude.Zip
