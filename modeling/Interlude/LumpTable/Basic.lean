import Interlude.Lump.Texture
import Interlude.LumpTable.Rule
import Interlude.Palette
import Interlude.Picture.Columns
import Interlude.Picture.Flat
import Interlude.Png
import Interlude.Screen

/-!
# Lump tables

A lump table holds what was found in an archive: for each name one content, and the place in the
directory where it was found. A name that has a content keeps it. What kind of lump a name is, its
picture or its bytes are all read off that one content, so that they cannot disagree. An inventory,
which writes each of them on its own, tells the same.
-/

namespace Interlude

/-- What kind of image a picture is. -/
inductive ImageKind where
  | flat
  | sprite
  | patch
  /-- A picture outside every range. -/
  | graphic
  deriving DecidableEq, Repr

/-- The kind of the images in a range. -/
def RangeKind.imageKind : RangeKind → ImageKind
  | .sprite => .sprite
  | .flat => .flat
  | .patch => .patch

/-- The kinds of lumps. -/
inductive Category where
  | palette
  | colormap
  | endoom
  | patchNames
  | texture
  | map
  | image (kind : ImageKind)
  | png
  | unknown
  deriving DecidableEq, Repr

/-- The word for a kind of lumps. -/
def Category.name : Category → String
  | .palette => "palette"
  | .colormap => "colormap"
  | .endoom => "endoom"
  | .patchNames => "patch_names"
  | .texture => "texture"
  | .map => "map"
  | .image .flat => "flat"
  | .image .sprite => "sprite"
  | .image .patch => "patch"
  | .image .graphic => "graphic"
  | .png => "png"
  | .unknown => "unknown"

/-- What a lump holds. -/
inductive Content where
  | palettes (palettes : List Palette)
  | colormaps (maps : List (List UInt8))
  | endoom (screen : Screen)
  | patchNames (names : List String)
  | textures (textures : List Texture)
  | map
  | picture (kind : ImageKind) (picture : Picture)
  /-- A picture that is a file of its own. -/
  | png (bytes : ByteArray)
  /-- Bytes that are nothing of the above, such as a text. -/
  | raw (bytes : ByteArray)

namespace Content

/-- The kind of a lump with this content. -/
def category : Content → Category
  | palettes _ => .palette
  | colormaps _ => .colormap
  | endoom _ => .endoom
  | patchNames _ => .patchNames
  | textures _ => .texture
  | map => .map
  | picture kind _ => .image kind
  | png _ => .png
  | raw _ => .unknown

/-- Bytes of which only the name is known: a picture file, or else a picture, or else just bytes. -/
def ofBytes (bytes : ByteArray) : Content :=
  if Png.isFile bytes then .png bytes
  else match Picture.decode? bytes with
    | some p => .picture .graphic p
    | none => .raw bytes

/-- Bytes in a range: a picture file, or else a picture of the range, or else just bytes. -/
def ofRange (kind : RangeKind) (bytes : ByteArray) : Content :=
  if Png.isFile bytes then .png bytes
  else match kind with
    | .flat => .picture .flat (Picture.ofFlat bytes)
    | kind => match Picture.decode? bytes with
      | some p => .picture kind.imageKind p
      | none => .raw bytes

/-- Bytes under a name in the list of patches. -/
def ofPatch (bytes : ByteArray) : Content :=
  match Picture.decode? bytes with
  | some p => .picture .patch p
  | none => ofBytes bytes

/-- The palettes of a content. -/
def paletteList : Content → List Palette
  | palettes ps => ps
  | _ => []

/-- The light level maps of a content. -/
def colormapList : Content → List (List UInt8)
  | colormaps ms => ms
  | _ => []

/-- The exit screen of a content. -/
def screen? : Content → Option Screen
  | endoom s => some s
  | _ => none

/-- The names of patches of a content. -/
def patchNameList : Content → List String
  | patchNames ns => ns
  | _ => []

/-- The textures of a content. -/
def textureList : Content → List Texture
  | textures ts => ts
  | _ => []

end Content

/-- A content with its name and the place in the directory where it was found. -/
structure Filed where
  index : Nat
  name : String
  content : Content

/-- What was found in an archive. -/
structure LumpTable where
  filed : List Filed
  nodup : (filed.map Filed.name).Nodup

namespace LumpTable

/-- The table in which nothing was found. -/
def empty : LumpTable := ⟨[], by simp⟩

/-- Whether a name has a content. -/
def isFiled (t : LumpTable) (name : String) : Bool :=
  t.filed.any fun f => f.name == name

/-- Gives a name a content unless it has one. -/
def file (t : LumpTable) (index : Nat) (name : String) (content : Content) : LumpTable :=
  if h : t.isFiled name = true then t
  else ⟨t.filed ++ [⟨index, name, content⟩], by
    simp only [isFiled, List.any_eq_true, beq_iff_eq, not_exists, not_and] at h
    simp only [List.map_append, List.map_cons, List.map_nil, List.nodup_append, List.mem_map,
      List.mem_singleton]
    refine ⟨t.nodup, by simp, ?_⟩
    rintro _ ⟨f, hf, rfl⟩ _ rfl
    exact h f hf⟩

/-- The content of a name. -/
def content? (t : LumpTable) (name : String) : Option Content :=
  (t.filed.find? fun f => f.name == name).map Filed.content

/-- The kind of a name. -/
def category? (t : LumpTable) (name : String) : Option Category :=
  (t.content? name).map Content.category

/-- The kind of the lump at a place in the directory; none if it was not filed. -/
def categoryAt? (t : LumpTable) (index : Nat) : Option Category :=
  (t.filed.find? fun f => f.index == index).map (·.content.category)

/-- The bytes of a name that holds just bytes. -/
def raw? (t : LumpTable) (name : String) : Option ByteArray :=
  match t.content? name with
  | some (.raw bytes) => some bytes
  | _ => none

/-- The palettes. -/
def palettes (t : LumpTable) : List Palette :=
  t.filed.flatMap (·.content.paletteList)

/-- The light level maps. -/
def colormaps (t : LumpTable) : List (List UInt8) :=
  t.filed.flatMap (·.content.colormapList)

/-- The exit screen. -/
def screen? (t : LumpTable) : Option Screen :=
  t.filed.findSome? (·.content.screen?)

/-- The names in the list of patches. -/
def patchNames (t : LumpTable) : List String :=
  t.filed.flatMap (·.content.patchNameList)

/-- The textures. -/
def textures (t : LumpTable) : List Texture :=
  t.filed.flatMap (·.content.textureList)

/-- The names of the maps. -/
def maps (t : LumpTable) : List String :=
  (t.filed.filter fun f => f.content.category = .map).map Filed.name

end LumpTable

end Interlude
