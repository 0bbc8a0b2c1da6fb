import Interlude.Files.Basic
import Interlude.Files.Path

/-!
# Making folders

A folder is made together with the folders above it, as far as they are missing. It is tried first
and the folder above it only if it turns out to be missing, so that a path through folders that are
there asks nothing of them.
-/

namespace Interlude.FileStore

variable {m : Type → Type} [Monad m] [FileStore m]

/-- Makes a folder in a folder that is there, unless there is one at the path. -/
def ensureFolder (path : String) : m (Except FileFault Unit) := do
  match ← createFolder path with
  | .ok () => return .ok ()
  | .error e => return if ← isFolder path then .ok () else .error e

/-- Ensures a folder that is the first of some paths, of which each lies in the next one. -/
def ensureFirst : List String → m (Except FileFault Unit)
  | [] => return .ok ()
  | path :: above => do
    match ← ensureFolder path with
    | .error .missing =>
      match ← ensureFirst above with
      | .ok () => ensureFolder path
      | .error e => return .error e
    | result => return result

/-- Makes a folder and the folders above it, as far as they are missing. A fault leaves those that
were made before. -/
def createFolders (path : String) : m (Except FileFault Unit) :=
  if path.isEmpty then return .ok () else ensureFirst (path :: Path.parents path)

end Interlude.FileStore
