import Interlude.CommandLine.Run
import Interlude.Conversion.Timestamp
import Std.Time.DateTime.Timestamp

/-!
# The program

The outermost layer: the files of the machine, its clock and its environment, and where texts go.
-/

namespace Interlude

/-- The number by which the system tells an error, if there is one. -/
def errorNumber? : IO.Error → Option UInt32
  | .alreadyExists _ code _ => some code
  | .otherError code _ => some code
  | .noFileOrDirectory _ code _ => some code
  | .invalidArgument _ code _ => some code
  | .inappropriateType _ code _ => some code
  | .illegalOperation code _ => some code
  | .resourceExhausted _ code _ => some code
  | .unsatisfiedConstraints code _ => some code
  | .noSuchThing _ code _ => some code
  | _ => none

/-- The fault that an error of the system is. Some of its numbers come with their sign changed. -/
def FileFault.ofError (e : IO.Error) : FileFault :=
  match (errorNumber? e).map fun code => if code < 0x80000000 then code else 0 - code with
  | some 2 => .missing
  | some 17 => .alreadyThere
  | some 20 => .notFolder
  | some 21 => .isFolder
  | some 36 => .longName
  | _ => .other (toString e)

/-- The result of an action, of which an error is a fault. -/
def faultOf (action : IO α) : IO (Except FileFault α) := do
  try return .ok (← action)
  catch e => return .error (.ofError e)

/-- The files of the machine. -/
instance : FileStore IO where
  readFile path := faultOf (IO.FS.readBinFile path)
  writeFile path bytes := faultOf (IO.FS.writeBinFile path bytes)
  createFolder path := faultOf (IO.FS.createDir path)
  isFolder path := do
    try (← IO.FS.realPath path).isDir
    catch _ => return false
  isThere path := do
    try
      let _ ← IO.FS.realPath path
      return true
    catch _ => return false

/-- The name and the value of a variable, which an equals sign parts. -/
def nameAndValue? (bytes : List UInt8) : Option (String × String) := do
  let name ← String.fromUTF8? (bytes.takeWhile (· ≠ 0x3D)).toByteArray
  let value ← String.fromUTF8? ((bytes.dropWhile (· ≠ 0x3D)).drop 1).toByteArray
  return (name, value)

/-- The file in which the system lists the variables of the program, each with a zero byte at its
end. -/
def variableFile : String := "/proc/self/environ"

/-- The variables that are asked for by name where the system does not list them. -/
def variableNames : List String :=
  ["AUTHOR", "PORTER", "MUSIC", "MAPINFO_LUMP", "ORDINAL_ORDER", "SAVE_GRAPHICS", "CACHE",
   "PALETTE", "CONVERSION"].map ("WADPORT_" ++ ·)

/-- The variables of the environment. -/
def readEnvironment : IO (List (String × String)) := do
  match ← faultOf (IO.FS.readBinFile variableFile) with
  | .ok bytes => return (bytes.data.toList.splitOn 0).filterMap nameAndValue?
  | .error _ => variableNames.filterMapM fun name => do return (← IO.getEnv name).map (name, ·)

end Interlude

open Interlude in
/-- Runs the program with its arguments. -/
def main (arguments : List String) : IO UInt32 := do
  let now := Timestamp.text (← Std.Time.Timestamp.now).toSecondsSinceUnixEpoch.val.toNat
  let (outcome, warnings) ← CommandLine.run now (← readEnvironment) arguments
  for warning in warnings do
    IO.eprintln s!"WARN {warning.message}"
  IO.print outcome.output
  for cause in outcome.causes do
    IO.eprintln s!"Error: {cause}"
  if outcome.exit = 2 then IO.eprint CommandLine.helpText
  return UInt32.ofNat outcome.exit
