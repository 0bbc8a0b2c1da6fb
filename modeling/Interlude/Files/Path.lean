/-!
# Paths

A path is a text whose parts are set off by slashes. The functions here look at the text alone and
ask no file system.
-/

namespace Interlude.Path

/-- The parts between the slashes. -/
def parts (path : String) : List String :=
  (path.toList.splitOn '/').map String.ofList

/-- The last part that names something, unless it is the step up. -/
def fileName? (path : String) : Option String :=
  match ((parts path).filter fun p => p ≠ "" ∧ p ≠ ".").getLast? with
  | some ".." | none => none
  | some name => some name

/-- What stands before and after the last dot of a file name. A dot at the start divides nothing. -/
def splitExtension (name : String) : String × Option String :=
  let after := (name.toList.reverse.takeWhile (· ≠ '.')).reverse
  let before := name.toList.take (name.length - after.length - 1)
  if before.isEmpty then (name, none) else (String.ofList before, some (String.ofList after))

/-- The name of the file without its extension. -/
def stem? (path : String) : Option String :=
  (fileName? path).map fun name => (splitExtension name).1

/-- The extension of the name of the file. -/
def extension? (path : String) : Option String :=
  (fileName? path).bind fun name => (splitExtension name).2

/-- The paths to the folders above the last step that names something, the nearest one first. -/
def parents (path : String) : List String :=
  let steps := parts path
  let named := steps.zipIdx.filter fun (step, _) => step ≠ "" ∧ step ≠ "."
  named.dropLast.reverse.map fun (_, i) => "/".intercalate (steps.take (i + 1))

/-- A path seen from a folder; one that starts at the root stays as it is. -/
def join (folder path : String) : String :=
  if path.startsWith "/" then path
  else if folder.isEmpty ∨ folder.endsWith "/" then folder ++ path
  else folder ++ "/" ++ path

/-- Drops slashes and empty steps from the end of a path that is given back to front. -/
def dropEmptySteps : List Char → List Char
  | '/' :: rest => dropEmptySteps rest
  | '.' :: '/' :: rest => dropEmptySteps rest
  | path => path

/-- The path without the extension of its last part. -/
def withoutExtension (path : String) : String :=
  match fileName? path with
  | none => path
  | some name =>
    let ending := dropEmptySteps path.toList.reverse
    String.ofList (ending.drop name.length).reverse ++ (splitExtension name).1

/-- The path with something added to its last part. -/
def withSuffix (path suffix : String) : String :=
  match fileName? path with
  | none => path
  | some _ => String.ofList (dropEmptySteps path.toList.reverse).reverse ++ suffix

end Interlude.Path
