import Interlude.Bytes.Cursor
import Interlude.Text.Utf8
import Interlude.Text.Blank

/-!
# Lump names in containers

A container stores a name in a field of eight bytes, filled up with NUL or blanks.
-/

namespace Interlude.Lump

/-- The width of the field. -/
def nameWidth : Nat := 8

/-- The name ends at the first NUL and has no blanks at its end. -/
def nameOfBytes (field : List UInt8) : String :=
  String.ofList (Text.trimEnd (Utf8.decode (field.takeWhile (· ≠ 0))))

/-- The next field of a container as a name. -/
def readName : Reading String := do
  return nameOfBytes (← Cursor.take nameWidth)

end Interlude.Lump
