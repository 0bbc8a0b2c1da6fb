import Interlude.Text.Blank
import Interlude.Text.CodePage437

/-!
# The exit screen

The screen that is shown after the game is text of 25 rows and 80 columns: for every cell a
character of code page 437 and a byte of colours. It is rendered as plain text or with colour
escapes.
-/

namespace Interlude

/-- A cell of the screen. -/
structure Cell where
  /-- The character in code page 437. -/
  raw : UInt8
  char : Char
  /-- The colour of the character, below 16. -/
  fg : Nat
  /-- The colour behind it, below 8. -/
  bg : Nat
  blink : Bool
  deriving DecidableEq, Repr

/-- The lowest four bits of the colour byte are the colour of the character, the next three the
colour behind it, and the last one makes it blink. -/
def Cell.ofBytes (raw attributes : UInt8) : Cell where
  raw
  char := CodePage437.char raw
  fg := attributes.toNat % 16
  bg := attributes.toNat / 16 % 8
  blink := 128 ≤ attributes.toNat

/-- The rows of a screen. -/
structure Screen where
  rows : List (List Cell)
  deriving DecidableEq, Repr

namespace Screen

/-- The number of columns. -/
def columns : Nat := 80

/-- The number of rows. -/
def rowCount : Nat := 25

/-- The cell at a place; what the lump leaves out is blank and light grey. -/
def cellAt (lump : ByteArray) (row column : Nat) : Cell :=
  let i := (row * columns + column) * 2
  .ofBytes (lump[i]?.getD 0) (lump[i + 1]?.getD 0x07)

/-- The screen of a lump. -/
def ofLump (lump : ByteArray) : Screen :=
  ⟨(List.range rowCount).map fun row => (List.range columns).map (cellAt lump row)⟩

/-- The codes of the colours behind characters. -/
def bgCodes : List String := ["40", "44", "42", "46", "41", "45", "48;5;130", "47"]

/-- The codes of the colours of characters. -/
def fgCodes : List String :=
  ["30", "34", "32", "36", "31", "35", "38;5;130", "37",
   "90", "94", "92", "96", "91", "95", "33", "97"]

/-- A cell with the escape that sets its colours. -/
def ansiCell (c : Cell) : String :=
  let bg := bgCodes.getD (c.bg % 8) ""
  let fg := fgCodes.getD (c.fg % 16) ""
  let blink := if c.blink then ";5" else ""
  s!"\x1b[{bg};{fg}{blink}m" ++ String.singleton c.char

/-- The screen with colours; every row ends by resetting them. -/
def ansi (s : Screen) : String :=
  String.join (s.rows.map fun row => String.join (row.map ansiCell) ++ "\x1b[0m\n")

/-- The characters of a row without the blanks at its end. -/
def plainRow (row : List Cell) : List Char :=
  Text.trimEnd (row.map Cell.char)

/-- The screen without colours. -/
def plain (s : Screen) : String :=
  String.ofList (s.rows.flatMap fun row => plainRow row ++ ['\n'])

end Screen

end Interlude
