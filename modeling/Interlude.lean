import Interlude.Archive.Basic
import Interlude.CommandLine.Run
import Interlude.Conversion.Basic
import Interlude.Conversion.Timestamp
import Interlude.Decimal.Shortest
import Interlude.Decimal.Text
import Interlude.Files.Tree
import Interlude.Interlevel.Document
import Interlude.Interlevel.Lowering
import Interlude.Lump.Texture
import Interlude.LumpTable.Inventory
import Interlude.Main
import Interlude.MapTable.Mapinfo
import Interlude.MapTable.Umapinfo
import Interlude.Picture.Columns
import Interlude.Picture.Flat
import Interlude.Png
import Interlude.Proofs.Archive.Appended
import Interlude.Proofs.Archive.Lumps
import Interlude.Proofs.Archive.ReadBack
import Interlude.Proofs.Archive.RecordByRecord
import Interlude.Proofs.Bytes.Operations
import Interlude.Proofs.CommandLine.Resolution
import Interlude.Proofs.Conversion.CacheCalls
import Interlude.Proofs.Conversion.Containment
import Interlude.Proofs.Conversion.Exporting
import Interlude.Proofs.Conversion.Failures
import Interlude.Proofs.Conversion.PictureFiles
import Interlude.Proofs.Conversion.Pictures
import Interlude.Proofs.Conversion.Rerun
import Interlude.Proofs.Conversion.TextLumps
import Interlude.Proofs.Conversion.Transparency
import Interlude.Proofs.Conversion.UnusableInput
import Interlude.Proofs.Interlevel.DocumentLines
import Interlude.Proofs.Interlevel.Drawings
import Interlude.Proofs.Interlevel.Fragments
import Interlude.Proofs.Interlevel.Marks
import Interlude.Proofs.Interlevel.ReadBack
import Interlude.Proofs.Interlevel.SpotLayers
import Interlude.Proofs.LineEnds
import Interlude.Proofs.Lump.ReadBack
import Interlude.Proofs.LumpTable.Brackets
import Interlude.Proofs.LumpTable.ListedPatches
import Interlude.Proofs.LumpTable.MapBlocks
import Interlude.Proofs.LumpTable.PassedOver
import Interlude.Proofs.LumpTable.Stocktaking
import Interlude.Proofs.MapTable.Absence
import Interlude.Proofs.MapTable.Joined
import Interlude.Proofs.MapTable.Offsets
import Interlude.Proofs.MapTable.Progression
import Interlude.Proofs.Picture.Bounds
import Interlude.Proofs.Picture.Layout
import Interlude.Proofs.Png.Chunks
import Interlude.Proofs.Png.Pixels
import Interlude.Proofs.Raster.Drawing
import Interlude.Proofs.Raster.Flats
import Interlude.Proofs.Raster.Numbering
import Interlude.Proofs.Screen.Renderings
import Interlude.Proofs.Script.Coordinates
import Interlude.Proofs.Script.IgnoredBlocks
import Interlude.Proofs.Script.ReadBack
import Interlude.Screen
import Interlude.Script.Parser
import Interlude.Settings.Source
import Interlude.Toml.Parser
