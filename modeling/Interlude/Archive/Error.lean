import Interlude.Text.Quoted
import Interlude.Text.Utf8

/-!
# What can be wrong with an archive

The causes for which an archive or one of its lumps cannot be read, and their texts.
-/

namespace Interlude

/-- The numbers in the header of a WAD. -/
inductive HeaderField where
  | lumpCount
  | directoryOffset
  deriving DecidableEq, Repr

/-- The name of a number in the header. -/
def HeaderField.name : HeaderField → String
  | .lumpCount => "numlumps"
  | .directoryOffset => "infotableofs"

/-- Why the data of a zip member is of no use. -/
inductive DataFault where
  /-- The compressed stream breaks its format. -/
  | corrupt
  /-- The data does not have the checksum that the directory tells. -/
  | checksum
  deriving DecidableEq, Repr

/-- The text of a data fault. -/
def DataFault.message : DataFault → String
  | .corrupt => "corrupt deflate stream"
  | .checksum => "Invalid checksum"

/-- Why an archive or a lump cannot be read. -/
inductive ArchiveError where
  /-- The file is too short for the header of a WAD. -/
  | shortHeader
  /-- The file starts with other bytes than a WAD. -/
  | magic (found : List UInt8)
  | negative (field : HeaderField) (value : Int)
  /-- The directory of a WAD does not lie in the file. -/
  | directoryOutside (count offset size : Nat)
  | lumpOutside (index : Nat) (name : String)
  | noLump (index : Nat)
  /-- The structure of a zip file, or the way in which a member is packed, cannot be read. -/
  | zip
  /-- The data of a zip member is broken. -/
  | member (path : String) (fault : DataFault)
  /-- No room can be made for as many bytes as a zip member is said to have. This ends the program. -/
  | noRoom (path : String) (size : Nat)
  deriving DecidableEq, Repr

/-- The text of an archive error. -/
def ArchiveError.message : ArchiveError → String
  | .shortHeader => "truncated WAD header"
  | .magic found => "not a WAD file: magic " ++ Text.quoted (Utf8.decode found)
  | .negative field value => s!"negative {field.name} in WAD header: {value}"
  | .directoryOutside count offset size =>
    s!"directory of {count} lumps at offset {offset} runs past end of file ({size} bytes)"
  | .lumpOutside index name => s!"lump {index} ('{name}') lies outside the file"
  | .noLump index => s!"no lump with index {index}"
  | .zip => "invalid PK3 archive"
  | .member path fault => s!"reading PK3 entry '{path}': {fault.message}"
  | .noRoom _ _ => "capacity overflow"

end Interlude
