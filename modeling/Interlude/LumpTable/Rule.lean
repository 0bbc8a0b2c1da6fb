import Interlude.Text.Word

/-!
# What the name of a lump says

The directory of an archive has no kinds, only names: markers that enclose ranges of sprites, flats
or patches, names of system lumps, names of maps. `Rule.of` reads a name that stands outside every
range.
-/

namespace Interlude

/-- What a range or a folder holds. -/
inductive RangeKind where
  | sprite
  | flat
  | patch
  deriving DecidableEq, Repr

/-- The markers that open ranges, each with the marker that closes what it opens. Two of them are
closed by the same marker. -/
def rangeMarkers : List (String × String) :=
  [("S_START", "S_END"), ("F_START", "F_END"), ("F1_START", "F1_END"), ("F2_START", "F2_END"),
   ("P_START", "P_END"), ("P1_START", "P1_END"), ("P2_START", "P2_END"), ("P3_START", "P3_END"),
   ("SS_START", "SS_END"), ("PP_START", "PP_END"), ("FF_START", "F_END")]

/-- The lumps that follow the marker of a map, in this order. -/
def geometryNames : List String :=
  ["THINGS", "LINEDEFS", "SIDEDEFS", "VERTEXES", "SEGS", "SSECTORS", "NODES", "SECTORS", "REJECT",
   "BLOCKMAP"]

/-- The marker that closes what a marker opens. -/
def endMarker? (name : String) : Option String :=
  rangeMarkers.lookup name

/-- Whether a name closes a range. -/
def isEndMarker (name : String) : Bool :=
  rangeMarkers.any fun m => m.2 == name

/-- Whether a name is that of a lump of a map. -/
def isGeometry (name : String) : Bool :=
  geometryNames.contains name

/-- The kind of the range that a marker opens, by its first letter. -/
def RangeKind.ofMarker (name : String) : RangeKind :=
  match name.toList with
  | 'F' :: _ => .flat
  | 'P' :: _ => .patch
  | _ => .sprite

/-- The kind that a folder has for all that lies in it. -/
def RangeKind.ofFolder? (folder : String) : Option RangeKind :=
  match folder with
  | "flats" => some .flat
  | "sprites" => some .sprite
  | "patches" => some .patch
  | _ => none

/-- `E1M1` to `E4M9`, or `MAP01` to `MAP99`. -/
def isMapName (name : String) : Bool :=
  match name.toList with
  | ['E', e, 'M', m] => '1' ≤ e && e ≤ '4' && '1' ≤ m && m ≤ '9'
  | ['M', 'A', 'P', a, b] => a.isDigit && b.isDigit && !(a == '0' && b == '0')
  | _ => false

/-- `DEMO0` to `DEMO9`. -/
def isDemoName (name : String) : Bool :=
  match name.toList with
  | ['D', 'E', 'M', 'O', d] => d.isDigit
  | _ => false

/-- Whether a name starts like those of sounds and music. -/
def isSoundName (name : String) : Bool :=
  match name.toList with
  | 'D' :: c :: _ => c == 'P' || c == 'S' || c == '_'
  | _ => false

/-- What to do with a lump outside every range. -/
inductive Rule where
  | palette
  | colormap
  | endoom
  | patchNames
  /-- Music, sounds and demos are left alone. -/
  | unparsed
  /-- The folder of the lump tells its kind. -/
  | inFolder (kind : RangeKind)
  | openRange (kind : RangeKind) (terminator : String)
  /-- The lump is named in the list of patches. -/
  | patch
  | mapBlock
  | texture
  | other
  deriving DecidableEq, Repr

/-- The rule for a name; the first one that fits counts. `patches` are the names in the list of
patches, `folder` is the topmost folder of the lump. -/
def Rule.of (name : String) (patches : List String) (folder : Option String) : Rule :=
  if name = "PLAYPAL" then .palette
  else if name = "COLORMAP" then .colormap
  else if name = "ENDOOM" then .endoom
  else if name = "PNAMES" then .patchNames
  else if name = "GENMIDI" ∨ name = "DMXGUS" ∨ isSoundName name then .unparsed
  else match folder.bind RangeKind.ofFolder? with
  | some kind => .inFolder kind
  | none => match endMarker? name with
    | some terminator => .openRange (.ofMarker name) terminator
    | none =>
      if patches.contains name then .patch
      else if isMapName name then .mapBlock
      else if isDemoName name then .unparsed
      else if name = "TEXTURE1" ∨ name = "TEXTURE2" then .texture
      else .other

end Interlude
