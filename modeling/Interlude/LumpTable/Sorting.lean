import Interlude.Archive.Basic
import Interlude.LumpTable.Basic

/-!
# Sorting the lumps of an archive

One pass over the directory fills a lump table. Start markers open ranges, which may nest; each
range ends at its own terminator. Inside a range its kind decides, outside the name of the lump does.
-/

namespace Interlude

/-- A range that was opened and not yet closed. -/
structure OpenRange where
  kind : RangeKind
  terminator : String
  deriving DecidableEq, Repr

/-- What may be odd about an archive. -/
inductive SortWarning where
  /-- A lump could not be read and was passed over. -/
  | unreadable (index : Nat) (error : ArchiveError)
  | badPatchNames (error : ReadError)
  | badTextures (name : String) (error : ReadError)
  /-- Some of the lumps of a map are missing. -/
  | shortMap (name : String) (count : Nat)
  | neverClosed (terminator : String)
  | noPalette
  deriving DecidableEq, Repr

/-- The text of a warning. -/
def SortWarning.message : SortWarning → String
  | .unreadable index error => s!"skipping lump {index}: {error.message}"
  | .badPatchNames error => s!"PNAMES: {error.message}"
  | .badTextures name error => s!"{name}: {error.message}"
  | .shortMap name count => s!"{name}: only {count} of {geometryNames.length} map lumps"
  | .neverClosed terminator => s!"marker range ending at {terminator} was never closed"
  | .noPalette => "no PLAYPAL in archive and no fallback palette, using grayscale"

/-- How far the sorting has come. -/
structure Sorting where
  table : LumpTable
  /-- The open ranges, the innermost one first. -/
  ranges : List OpenRange
  warnings : List SortWarning

namespace Sorting

/-- Nothing is sorted yet. -/
def start : Sorting := ⟨.empty, [], []⟩

/-- Adds a warning. -/
def warn (s : Sorting) (w : SortWarning) : Sorting :=
  { s with warnings := s.warnings ++ [w] }

/-- Files a content. -/
def file (s : Sorting) (index : Nat) (name : String) (content : Content) : Sorting :=
  { s with table := s.table.file index name content }

/-- The names in the lists of patches so far, in upper case. -/
def patches (s : Sorting) : List String :=
  s.table.patchNames.map Text.upper

/-- Files what a lump holds, or warns that it could not be read. -/
def fileLump (s : Sorting) (a : Archive) (index : Nat) (name : String)
    (content : ByteArray → Option Content × Option SortWarning) : Sorting :=
  match a.lump index with
  | .error e => s.warn (.unreadable index e)
  | .ok bytes =>
    let (content, warning) := content bytes
    let s := warning.elim s s.warn
    content.elim s (s.file index name)

/-- What the list of patches holds. A broken list is not filed. -/
def patchNamesOf (bytes : ByteArray) : Option Content × Option SortWarning :=
  match Lump.readPatchNames bytes with
  | .ok names => (some (.patchNames names), none)
  | .error e => (none, some (.badPatchNames e))

/-- What a list of textures holds. A broken list is filed as other bytes are. -/
def texturesOf (name : String) (bytes : ByteArray) : Option Content × Option SortWarning :=
  match Lump.readTextures bytes with
  | .ok textures => (some (.textures textures), none)
  | .error e => (some (.ofBytes bytes), some (.badTextures name e))

/-- The number of lumps of a map that follow its marker in their order. -/
def geometryRun (following : List LumpEntry) : Nat :=
  ((following.zip geometryNames).takeWhile fun (e, name) => e.name == name).length

/-- A lump outside every range. The number tells how many of the following lumps belong to it. -/
def visitOutside (s : Sorting) (a : Archive) (index : Nat) (name : String)
    (following : List LumpEntry) : Sorting × Nat :=
  if s.table.isFiled name || isGeometry name || isEndMarker name then (s, 0)
  else
    let filing (content : ByteArray → Content) : Sorting × Nat :=
      (s.fileLump a index name fun bytes => (some (content bytes), none), 0)
    match Rule.of name s.patches (a.folder? index) with
    | .palette => filing fun bytes => .palettes (Palette.readAll bytes)
    | .colormap => filing fun bytes => .colormaps (readColormaps bytes)
    | .endoom => filing fun bytes => .endoom (Screen.ofLump bytes)
    | .patchNames => (s.fileLump a index name patchNamesOf, 0)
    | .unparsed => (s, 0)
    | .inFolder kind => filing (.ofRange kind)
    | .openRange kind terminator => ({ s with ranges := ⟨kind, terminator⟩ :: s.ranges }, 0)
    | .patch => filing .ofPatch
    | .mapBlock =>
      let count := geometryRun following
      let s := s.file index name .map
      (if count < geometryNames.length then s.warn (.shortMap name count) else s, count)
    | .texture => (s.fileLump a index name (texturesOf name), 0)
    | .other => filing .ofBytes

/-- A lump in a range. In a range of patches only those in the list of patches count. -/
def visitInside (s : Sorting) (a : Archive) (index : Nat) (e : LumpEntry) (kind : RangeKind) :
    Sorting :=
  if e.size = 0 || s.table.isFiled e.name then s
  else if kind = .patch && !s.patches.contains (Text.upper e.name) then s
  else s.fileLump a index e.name fun bytes => (some (.ofRange kind bytes), none)

/-- Takes the next lump, and tells how many of those that follow belong to it. -/
def visit (s : Sorting) (a : Archive) (index : Nat) (e : LumpEntry) (following : List LumpEntry) :
    Sorting × Nat :=
  match s.ranges with
  | [] => s.visitOutside a index e.name following
  | range :: outer =>
    if range.terminator = e.name then ({ s with ranges := outer }, 0)
    else match endMarker? e.name with
      | some terminator =>
        ({ s with ranges := ⟨.ofMarker e.name, terminator⟩ :: s.ranges }, 0)
      | none => (s.visitInside a index e range.kind, 0)

/-- Takes the lumps from a place in the directory on. -/
def visitAll (a : Archive) (s : Sorting) (index : Nat) : List LumpEntry → Sorting
  | [] => s
  | e :: following =>
    let (s, count) := s.visit a index e following
    visitAll a s (index + 1 + count) (following.drop count)
termination_by entries => entries.length

/-- All lumps of an archive. -/
def ofArchive (a : Archive) : Sorting :=
  visitAll a start 0 a.entries

end Sorting

/-- What was found in an archive, with the palette to draw its pictures with. -/
structure SortedArchive where
  table : LumpTable
  /-- The palettes of the archive, or the one that stands in for them. -/
  palettes : List Palette
  warnings : List SortWarning

/-- The palette that pictures are drawn with. -/
def SortedArchive.palette (s : SortedArchive) : Palette :=
  s.palettes.headD .grayscale

/-- Sorts the lumps of an archive. A palette that is given stands in if the archive has none, and
shades of gray do if none is given. -/
def Archive.sorted (a : Archive) (fallback : Option Palette) : SortedArchive :=
  let s := Sorting.ofArchive a
  let found := s.table.palettes
  let unclosed := s.ranges.reverse.map fun r => SortWarning.neverClosed r.terminator
  { table := s.table
    palettes := if found.isEmpty then [fallback.getD .grayscale] else found
    warnings := s.warnings ++ unclosed ++
      if found.isEmpty && fallback.isNone then [SortWarning.noPalette] else [] }

end Interlude
