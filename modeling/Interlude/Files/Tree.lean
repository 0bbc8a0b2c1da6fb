import Interlude.Files.Basic
import Interlude.Files.Path

/-!
# File trees

A file tree is a value that behaves like a file system without links: files and folders by their
place, and the folder in which relative paths begin. A path is followed step by step, so that a step
up leads out of a folder only if there is one.
-/

namespace Interlude

/-- A place in a file system: the names on the way down from the root. -/
abbrev Place := List String

/-- The files and the folders of a file system. -/
structure FileTree where
  files : List (Place × ByteArray)
  /-- The folders other than the root. -/
  folders : List Place
  /-- Where relative paths begin. -/
  here : Place

/-- What lies at a place. -/
inductive Node where
  | file (bytes : ByteArray)
  | folder

namespace FileTree

/-- The longest name that a file may have, in bytes. -/
def longestName : Nat := 255

/-- The longest path that may be asked for, in bytes. -/
def longestPath : Nat := 4095

/-- What lies at a place, if anything does. -/
def node? (t : FileTree) (place : Place) : Option Node :=
  if place.isEmpty ∨ place ∈ t.folders then some .folder
  else (t.files.lookup place).map .file

/-- Fails unless there is a folder at a place. -/
def needFolder (t : FileTree) (place : Place) : Except FileFault Unit :=
  match t.node? place with
  | some .folder => .ok ()
  | some (.file _) => .error .notFolder
  | none => .error .missing

/-- Takes the steps of a path from a place on. The last place need not be taken. -/
def follow (t : FileTree) (place : Place) : List String → Except FileFault Place
  | [] => .ok place
  | step :: rest => do
    t.needFolder place
    if step = "" ∨ step = "." then t.follow place rest
    else if step = ".." then t.follow place.dropLast rest
    else if longestName < step.utf8ByteSize then throw .longName
    else t.follow (place ++ [step]) rest

/-- Fails for a path that no file system takes. -/
def checkPath (path : String) : Except FileFault Unit := do
  if '\x00' ∈ path.toList then throw .badName
  if path.isEmpty then throw .missing
  if longestPath < path.utf8ByteSize then throw .longName

/-- Where a path begins. -/
def origin (t : FileTree) (path : String) : Place :=
  if path.startsWith "/" then [] else t.here

/-- The place that a path leads to. -/
def placeOf (t : FileTree) (path : String) : Except FileFault Place := do
  checkPath path
  t.follow (t.origin path) (Path.parts path)

/-- The bytes of a file. -/
def read (t : FileTree) (path : String) : Except FileFault ByteArray := do
  match t.node? (← t.placeOf path) with
  | some (.file bytes) => return bytes
  | some .folder => throw .isFolder
  | none => throw .missing

/-- Whether there is something at the end of a path. -/
def isThere (t : FileTree) (path : String) : Bool :=
  match t.placeOf path with
  | .ok place => (t.node? place).isSome
  | .error _ => false

/-- Whether there is a folder at the end of a path. -/
def isFolder (t : FileTree) (path : String) : Bool :=
  match t.placeOf path with
  | .ok place => (t.needFolder place).isOk
  | .error _ => false

/-- The parts of a path without the empty ones at its end. -/
def steps (path : String) : List String :=
  ((Path.parts path).reverse.dropWhile (· = "")).reverse

/-- The place at which a path would make a file. A path that ends in a slash, in the empty step or
in the step up can only name a folder. -/
def newPlace (t : FileTree) (path : String) : Except FileFault Place := do
  checkPath path
  let steps := steps path
  match steps.getLast? with
  | none => throw .isFolder
  | some name =>
    let parent ← t.follow (t.origin path) steps.dropLast
    t.needFolder parent
    if name = "." ∨ name = ".." ∨ path.endsWith "/" then throw .isFolder
    if longestName < name.utf8ByteSize then throw .longName
    return parent ++ [name]

/-- Sets the content of a file by its place. -/
def put (place : Place) (bytes : ByteArray) : List (Place × ByteArray) → List (Place × ByteArray)
  | [] => [(place, bytes)]
  | (other, old) :: rest =>
    if other = place then (place, bytes) :: rest else (other, old) :: put place bytes rest

/-- Makes the bytes the content of a file in a folder that is there. -/
def write (t : FileTree) (path : String) (bytes : ByteArray) : Except FileFault FileTree := do
  let place ← t.newPlace path
  match t.node? place with
  | some .folder => throw .isFolder
  | _ => return { t with files := put place bytes t.files }

/-- The place at which a path would make a folder. A path that ends in the empty step or in the step
up can only name a folder that is there. -/
def newFolderPlace (t : FileTree) (path : String) : Except FileFault Place := do
  checkPath path
  let steps := steps path
  match steps.getLast? with
  | none => throw .alreadyThere
  | some name =>
    let parent ← t.follow (t.origin path) steps.dropLast
    t.needFolder parent
    if name = "." ∨ name = ".." then throw .alreadyThere
    if longestName < name.utf8ByteSize then throw .longName
    return parent ++ [name]

/-- Makes a folder in a folder that is there. -/
def createFolder (t : FileTree) (path : String) : Except FileFault FileTree := do
  let place ← t.newFolderPlace path
  match t.node? place with
  | some _ => throw .alreadyThere
  | none => return { t with folders := place :: t.folders }

/-- A tree without files, in which relative paths begin at a place. -/
def empty (here : Place) : FileTree where
  files := []
  folders := (List.range here.length).map fun n => here.take (n + 1)
  here

end FileTree

/-- A file tree is a file system for programs that keep it as their state. -/
instance : FileStore (StateM FileTree) where
  readFile path := do return (← get).read path
  writeFile path bytes := do
    match (← get).write path bytes with
    | .ok t => set t; return .ok ()
    | .error e => return .error e
  createFolder path := do
    match (← get).createFolder path with
    | .ok t => set t; return .ok ()
    | .error e => return .error e
  isFolder path := do return (← get).isFolder path
  isThere path := do return (← get).isThere path

end Interlude
