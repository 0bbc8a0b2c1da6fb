import Interlude.Conversion.Session
import Interlude.Interlevel.Document
import Interlude.MapTable.Umapinfo

/-!
# Conversion

A conversion reads the table of the maps and the scripts that it names from an archive, and writes a
table of the maps in another form, the credits, a document for each script and the pictures that the
screens show.
-/

namespace Interlude

/-- What a conversion wrote. -/
structure Report where
  /-- The number of maps. -/
  maps : Nat
  scripts : List String
  images : List String
  /-- The pictures that were there before or are not in the archive. -/
  skipped : List String
  deriving DecidableEq, Repr

namespace Converting

variable {m : Type → Type} [Monad m] [FileStore m]

/-- The file of the table of the maps. -/
def mapFile : String := "UMAPINFO.txt"

/-- The file of the credits. -/
def creditsFile : String := "CREDITS.txt"

/-- Writes the document of a script. -/
def writeDocument (o : Options) (maps : MapTable) (metadata : Interlevel.Metadata)
    (script : Script) : Converting m Unit := do
  warn ((Interlevel.warningsOf maps script).map (.lowering script.name))
  writeText o (script.name ++ ".json")
    (Interlevel.render (Interlevel.ofScript maps o.music script) metadata)

/-- The pictures of a script that may come from the game itself. -/
def externalImages (script : Script) : List String :=
  script.splat.toList ++ script.pointers.toList.flatMap (fun (l, r) => [l, r]) ++
    [Script.blankPatch]

/-- The pictures that stand in for splats and pointers at the spots of a script. -/
def spotImages (maps : MapTable) (script : Script) : List String :=
  script.spots.flatMap fun spot =>
    (maps.find? spot.map).toList.flatMap fun map => map.enterPic.toList ++ map.exitPic.toList

/-- Writes the pictures of a script. -/
def exportScript (o : Options) (maps : MapTable) (script : Script) : Converting m Unit := do
  for image in script.images do
    exportImage o image ((externalImages script).contains image)
  for image in spotImages maps script do
    exportImage o image false

/-- Writes the pictures of scripts and the end picture, if pictures are to be written. -/
def exportPictures (o : Options) (maps : MapTable) (scripts : List Script) : Converting m Unit := do
  if o.saveGraphics then
    for script in scripts do
      exportScript o maps script
    for image in maps.endPicture? do
      exportImage o image false

/-- Makes the folders that a conversion needs and reads the table of the maps. -/
def prepare (o : Options) : Converting m MapTable := do
  onPath o.output (FileStore.createFolders o.output)
  if o.cache then
    let _ ← onPath o.cacheFolder (LumpCache.openIn (m := m) o.cacheFolder)
  readMaps o

/-- Reads the scripts of the maps and writes everything; `now` is the present time. -/
def produce (o : Options) (now : String) (maps : MapTable) : Converting m Report := do
  let scripts ← maps.scripts.mapM (readScript o)
  writeText o mapFile (Umapinfo.render maps)
  writeText o creditsFile (Umapinfo.credits o.author)
  let metadata : Interlevel.Metadata :=
    .forMod o.porter Options.application (o.timestamp.getD now) o.title o.author
  for script in scripts do
    writeDocument o maps metadata script
  exportPictures o maps scripts
  let s ← get
  return ⟨maps.maps.length, scripts.map Script.name, s.written, s.skipped⟩

/-- Runs a conversion; `now` is the present time. -/
def run (o : Options) (now : String) : Converting m Report := do
  produce o now (← prepare o)

end Converting

/-- Runs a conversion with a session of its own. The session tells the warnings, also those of a
conversion that fails. -/
def convert {m : Type → Type} [Monad m] [FileStore m] (o : Options) (now : String) :
    m (Except ConversionError Report × Session) :=
  StateT.run (ExceptT.run (Converting.run o now)) .start

end Interlude
