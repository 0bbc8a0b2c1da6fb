/-!
# Files

What the program asks of a file system. The operations are stated for any monad, so that the same
program runs on the files of a machine and on a `FileTree` that is a plain value.
-/

namespace Interlude

/-- Why a file operation fails. -/
inductive FileFault where
  | missing
  | isFolder
  | notFolder
  | alreadyThere
  | longName
  /-- The name holds a NUL. -/
  | badName
  /-- A fault with a text of its own. -/
  | other (message : String)
  deriving DecidableEq, Repr

/-- The text of a file fault. -/
def FileFault.message : FileFault → String
  | .missing => "No such file or directory (os error 2)"
  | .isFolder => "Is a directory (os error 21)"
  | .notFolder => "Not a directory (os error 20)"
  | .alreadyThere => "File exists (os error 17)"
  | .longName => "File name too long (os error 36)"
  | .badName => "file name contained an unexpected NUL byte"
  | .other message => message

/-- The operations on files. -/
class FileStore (m : Type → Type) where
  /-- The bytes of a file. -/
  readFile : (path : String) → m (Except FileFault ByteArray)
  /-- Makes the bytes the content of a file in a folder that is there. -/
  writeFile : (path : String) → (bytes : ByteArray) → m (Except FileFault Unit)
  /-- Makes a folder in a folder that is there. -/
  createFolder : (path : String) → m (Except FileFault Unit)
  /-- Whether there is a folder at a path. -/
  isFolder : (path : String) → m Bool
  /-- Whether there is a file or a folder at a path. -/
  isThere : (path : String) → m Bool

end Interlude
