import Interlude.Files.Folders

/-!
# The cache of lumps

A cache is a folder in which each lump that was read is a file of its own, named for the lump. What
the cache holds is never out of date: who changes the archive removes the folder.
-/

namespace Interlude

/-- A folder that keeps lumps. -/
structure LumpCache where
  folder : String
  deriving DecidableEq, Repr

namespace LumpCache

variable {m : Type → Type} [Monad m] [FileStore m]

/-- A character in the name of a file; those that would part a path are replaced. -/
def fileChar (c : Char) : Char :=
  if c = '/' ∨ c = '\\' ∨ c = ':' then '^' else c

/-- The file that keeps a lump. -/
def path (c : LumpCache) (name : String) : String :=
  Path.join c.folder (String.ofList (name.toList.map fileChar))

/-- The cache in a folder, which is made if it is missing. -/
def openIn (folder : String) : m (Except FileFault LumpCache) := do
  return (← FileStore.createFolders folder).map fun () => ⟨folder⟩

/-- The bytes of a lump, if the cache has it. -/
def get (c : LumpCache) (name : String) : m (Except FileFault (Option ByteArray)) := do
  match ← FileStore.readFile (c.path name) with
  | .ok bytes => return .ok (some bytes)
  | .error .missing => return .ok none
  | .error e => return .error e

/-- Keeps the bytes of a lump. -/
def put (c : LumpCache) (name : String) (bytes : ByteArray) : m (Except FileFault Unit) :=
  FileStore.writeFile (c.path name) bytes

end LumpCache

end Interlude
