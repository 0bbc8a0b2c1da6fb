import Interlude.Files.Path
import Interlude.MapTable.Basic

/-!
# What a conversion is asked to do
-/

namespace Interlude

/-- The settings of a conversion. -/
structure Options where
  /-- The archive to read. -/
  archive : String
  /-- The folder to write to. -/
  output : String
  /-- The name of the mod. -/
  title : String
  /-- Who made the mod. -/
  author : String
  /-- Who is named as the author of the documents. -/
  porter : String
  /-- The music of the screens. -/
  music : Option String
  /-- The lump that holds the map blocks. -/
  mapLump : String
  order : OrdinalOrder
  /-- Whether the pictures are written. -/
  saveGraphics : Bool
  /-- Whether text lumps are kept for later conversions. -/
  cache : Bool
  /-- A file with the palette for archives that have none. -/
  palette : Option String
  /-- The time that the documents tell; the present one if it is not set. -/
  timestamp : Option String
  deriving DecidableEq, Repr

namespace Options

/-- The name under which the program signs its documents. -/
def application : String := "wadport"

/-- The settings for an archive and a folder where nothing else is said. The mod is called by the
name of its archive. -/
def standard (archive output : String) : Options where
  archive
  output
  title := (Path.stem? archive).getD ""
  author := ""
  porter := application
  music := none
  mapLump := "MAPINFO"
  order := .declaration
  saveGraphics := true
  cache := false
  palette := none
  timestamp := none

/-- The folder of the cache. -/
def cacheFolder (o : Options) : String :=
  Path.join o.output "_tmp"

/-- The path of a file in the output folder. -/
def target (o : Options) (file : String) : String :=
  Path.join o.output file

end Options

end Interlude
