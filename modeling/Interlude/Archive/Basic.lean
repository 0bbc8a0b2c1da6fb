import Interlude.Archive.Pk3

/-!
# Archives

An archive is a WAD or a PK3: a sequence of lumps, each with a name. Of several lumps with one name
the last one counts.
-/

namespace Interlude

/-- An archive of either form. -/
inductive Archive where
  | wad (w : Wad)
  | pk3 (p : Pk3)

namespace Archive

/-- The bytes with which a PK3 starts. -/
def zipMagic : List UInt8 := [0x50, 0x4B, 0x03, 0x04]

/-- Opens an archive of the form that its first bytes show. -/
def ofBytes (data : ByteArray) : Except ArchiveError Archive :=
  if zipMagic.isPrefixOf (data.extract 0 4).data.toList then .pk3 <$> Pk3.ofBytes data
  else .wad <$> Wad.ofBytes data

/-- Opens an archive of the form that the extension of its file tells, or else its first bytes. -/
def ofFile (extension : Option String) (data : ByteArray) : Except ArchiveError Archive :=
  match extension.map Text.lower with
  | some "pk3" | some "zip" => .pk3 <$> Pk3.ofBytes data
  | some "wad" => .wad <$> Wad.ofBytes data
  | _ => ofBytes data

/-- The records of the lumps. -/
def entries : Archive → List LumpEntry
  | .wad w => w.entries
  | .pk3 p => p.entries

/-- The bytes of a lump. -/
def lump : Archive → Nat → Except ArchiveError ByteArray
  | .wad w, index => w.lump index
  | .pk3 p, index => p.lump index

/-- The name and the bytes of a lump. -/
def named (a : Archive) (index : Nat) : Except ArchiveError (String × ByteArray) :=
  match a.entries[index]? with
  | none => .error (.noLump index)
  | some e => (e.name, ·) <$> a.lump index

/-- The place of the last lump with a name, of which the case does not matter. -/
def lastIndex? (a : Archive) (name : String) : Option Nat :=
  (List.range a.entries.length).reverse.find? fun i =>
    (a.entries[i]?).any fun e => Text.sameName e.name name

/-- The bytes of the last lump with a name. -/
def lumpNamed? (a : Archive) (name : String) : Except ArchiveError (Option ByteArray) :=
  match a.lastIndex? name with
  | none => .ok none
  | some i => some <$> a.lump i

/-- The topmost folder of a lump of a PK3. -/
def folder? : Archive → Nat → Option String
  | .wad _, _ => none
  | .pk3 p, index => p.folder? index

end Archive

end Interlude
