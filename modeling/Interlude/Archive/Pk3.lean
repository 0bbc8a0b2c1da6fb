import Interlude.Archive.Wad
import Interlude.Archive.Zip.Member
import Interlude.Text.Word

/-!
# PK3 containers

A PK3 is a zip file whose members act as lumps. The name of a lump is the start of the name of the
file, and the topmost folder tells what kind of lump it is.
-/

namespace Interlude

/-- The name of the lump at a path: the name of the file up to the first dot, in upper case and
no longer than the names in a WAD. -/
def Lump.nameOfPath (path : String) : String :=
  let file := (path.toList.reverse.takeWhile (· ≠ '/')).reverse
  Text.upper (String.ofList ((file.takeWhile (· ≠ '.')).take nameWidth))

/-- The topmost folder of a path in lower case. -/
def Lump.folderOfPath? (path : String) : Option String :=
  let folder := path.toList.takeWhile (· ≠ '/')
  if folder.length < path.length then some (Text.lower (String.ofList folder)) else none

/-- A PK3 held in memory. -/
structure Pk3 where
  data : ByteArray
  /-- The members that are files. -/
  files : List Zip.Member

namespace Pk3

/-- Opens a PK3. -/
def ofBytes (data : ByteArray) : Except ArchiveError Pk3 :=
  match Zip.membersOf? data with
  | some members => .ok ⟨data, members.filter fun m => !m.isFolder⟩
  | none => .error .zip

/-- The members as records of a directory. A size that its record cannot hold is the largest one
that it can. -/
def entries (p : Pk3) : List LumpEntry :=
  p.files.map fun m => ⟨Lump.nameOfPath m.path, 0, .ofNat (min m.size 0xFFFFFFFF)⟩

/-- Room is never made for so many bytes or more. -/
def roomLimit : Nat := 0x8000000000000000

/-- The bytes of a lump. Before they are read, room is made for as many as the directory tells. -/
def lump (p : Pk3) (index : Nat) : Except ArchiveError ByteArray :=
  match p.files[index]? with
  | none => .error (.noLump index)
  | some m =>
    if m.canOpen && roomLimit ≤ m.size then .error (.noRoom m.path m.size)
    else m.bytes p.data

/-- The topmost folder of a lump. -/
def folder? (p : Pk3) (index : Nat) : Option String := do
  Lump.folderOfPath? (← p.files[index]?).path

end Pk3

end Interlude
