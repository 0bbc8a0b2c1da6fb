import Interlude.Conversion.Cache
import Interlude.Conversion.Options
import Interlude.Interlevel.Lowering
import Interlude.LumpTable.Sorting
import Interlude.MapTable.Mapinfo
import Interlude.Png
import Interlude.Script.Parser

/-!
# The course of a conversion

A conversion runs in a monad with files. What it keeps on the way, and the warnings that it gives,
form its session, which is there also when the conversion fails. The archive is read when the first
lump or picture is asked for that the files do not have, and only once.
-/

namespace Interlude

/-- Why an archive cannot be opened. -/
inductive OpenError where
  | unreadable (path : String) (fault : FileFault)
  | archive (error : ArchiveError)
  deriving DecidableEq, Repr

/-- The text of an error and those of the errors behind it. -/
def OpenError.causes : OpenError → List String
  | .unreadable path fault => [s!"reading {path}: {fault.message}", fault.message]
  | .archive (.member path fault) => [(ArchiveError.member path fault).message, fault.message]
  | .archive error => [error.message]

namespace Archive

/-- Opens the archive in a file. -/
def openFile {m : Type → Type} [Monad m] [FileStore m] (path : String) :
    m (Except OpenError Archive) := do
  match ← FileStore.readFile path with
  | .error fault => return .error (.unreadable path fault)
  | .ok data => return (Archive.ofFile (Path.extension? path) data).mapError .archive

end Archive

/-- Why a conversion fails. -/
inductive ConversionError where
  | opening (error : OpenError)
  | file (path : String) (fault : FileFault)
  /-- A picture without area has no form as a picture file. -/
  | image (name : String)
  deriving DecidableEq, Repr

/-- The text of an error and those of the errors behind it. -/
def ConversionError.causes : ConversionError → List String
  | .opening error => error.causes
  | .file path fault => [s!"{path}: {fault.message}", fault.message]
  | .image name => [s!"{name}.png: PNG encoding failed"]

/-- What is odd about the input of a conversion. -/
inductive ConversionWarning where
  | sorting (warning : SortWarning)
  | noMapLump (name : String)
  | mapinfo (fault : Mapinfo.Fault)
  | noScript (name : String)
  | script (name : String) (warning : Script.Warning)
  | lowering (name : String) (warning : Interlevel.Warning)
  | noImage (name : String)

/-- The text of a warning. -/
def ConversionWarning.message : ConversionWarning → String
  | .sorting w => w.message
  | .noMapLump name => s!"no {name} lump, UMAPINFO will be empty"
  | .mapinfo fault => fault.message
  | .noScript name => s!"intermission script {name} not found"
  | .script name w => w.message name
  | .lowering name w => w.message name
  | .noImage name => s!"{name}: no such image in archive"

/-- What a conversion keeps on its way. -/
structure Session where
  /-- The lumps of the archive, once it was read. -/
  sorted : Option SortedArchive
  /-- The pictures that were asked for. -/
  asked : List String
  /-- The pictures that were written. -/
  written : List String
  /-- The pictures that were there before or are not in the archive. -/
  skipped : List String
  warnings : List ConversionWarning

/-- Nothing has happened yet. -/
def Session.start : Session := ⟨none, [], [], [], []⟩

/-- A part of a conversion. -/
abbrev Converting (m : Type → Type) := ExceptT ConversionError (StateT Session m)

namespace Converting

variable {m : Type → Type} [Monad m] [FileStore m]

/-- Gives warnings. -/
def warn (warnings : List ConversionWarning) : Converting m Unit :=
  modify fun s => { s with warnings := s.warnings ++ warnings }

/-- An operation on files, of which a fault is told with a path. -/
def onPath (path : String) (operation : m (Except FileFault α)) : Converting m α := do
  match ← operation with
  | .ok a => return a
  | .error fault => throw (.file path fault)

/-- The palette for archives that have none. -/
def fallbackPalette (o : Options) : Converting m (Option Palette) := do
  match o.palette with
  | none => return none
  | some path =>
    let bytes ← onPath path (FileStore.readFile path)
    return some (.ofBytes (bytes.data.toList.take Palette.byteSize))

/-- The lumps of the archive. -/
def lumps (o : Options) : Converting m SortedArchive := do
  match (← get).sorted with
  | some sorted => return sorted
  | none =>
    match ← Archive.openFile (m := m) o.archive with
    | .error e => throw (.opening e)
    | .ok archive =>
      let sorted := archive.sorted (← fallbackPalette o)
      warn (sorted.warnings.map .sorting)
      modify fun s => { s with sorted := some sorted }
      return sorted

/-- The bytes of a text lump in the archive; an empty lump counts as none. -/
def archivedText (o : Options) (key : String) : Converting m (Option ByteArray) := do
  return ((← lumps o).table.raw? key).filter fun bytes => !bytes.isEmpty

/-- The bytes of a text lump, from the cache if it is to be used. -/
def textLump (o : Options) (name : String) : Converting m (Option ByteArray) := do
  let key := Text.upper name
  if o.cache then
    let cache : LumpCache := ⟨o.cacheFolder⟩
    match ← onPath cache.folder (cache.get key) with
    | some bytes => return some bytes
    | none =>
      let found ← archivedText o key
      match found with
      | some bytes => onPath cache.folder (cache.put key bytes)
      | none => pure ()
      return found
  else archivedText o key

/-- The table of the maps. -/
def readMaps (o : Options) : Converting m MapTable := do
  match ← textLump o o.mapLump with
  | some bytes =>
    let text := Utf8.text bytes.data.toList
    warn ((MapTable.faultOfText text).toList.map .mapinfo)
    return .ofText text o.order
  | none =>
    warn [.noMapLump o.mapLump]
    return ⟨[]⟩

/-- A script; one that is missing has no directives. -/
def readScript (o : Options) (name : String) : Converting m Script := do
  match ← textLump o name with
  | some bytes =>
    let text := Utf8.text bytes.data.toList
    warn ((Script.warningsOf text).map (.script name))
    return .ofText name text
  | none =>
    warn [.noScript name]
    return .ofText name ""

/-- Writes a text into the output folder. -/
def writeText (o : Options) (file text : String) : Converting m Unit :=
  onPath (o.target file) (FileStore.writeFile (o.target file) text.toUTF8)

/-- The file of a picture. -/
def imageFile (sorted : SortedArchive) (name : String) : Content → Converting m (Option ByteArray)
  | .png bytes => return some bytes
  | .picture _ picture => do
    let png := Png.ofPicture picture sorted.palette
    if png.hasArea then return some png.toFile else throw (.image name)
  | _ => return none

/-- Notes a picture that is not written. -/
def skip (name : String) : Converting m Unit :=
  modify fun s => { s with skipped := s.skipped ++ [name] }

/-- Writes a picture unless there is a file for it. It may be missing from the archive without a
warning if it is known to come from elsewhere. -/
def exportNew (o : Options) (name : String) (external : Bool) : Converting m Unit := do
  let path := o.target (name ++ ".png")
  if ← FileStore.isThere (m := m) path then skip name
  else
    let sorted ← lumps o
    let content := sorted.table.content? (Text.upper name)
    match ← content.elim (pure none) (imageFile sorted name) with
    | none =>
      if !external then warn [.noImage name]
      skip name
    | some bytes =>
      onPath path (FileStore.writeFile path bytes)
      modify fun s => { s with written := s.written ++ [name] }

/-- Writes a picture that was not asked for before. -/
def exportImage (o : Options) (name : String) (external : Bool) : Converting m Unit := do
  if !(← get).asked.contains name then
    modify fun s => { s with asked := s.asked ++ [name] }
    exportNew o name external

end Converting

end Interlude
