/-!
# Code page 437

The character set of the machines that lump containers were made on. Its lower half is ASCII, apart
from the control codes, which stand for pictures on a screen.
-/

namespace Interlude

namespace CodePage437

/-- The characters 0 to 31. -/
def low : List Char :=
  [' ', '☺', '☻', '♥', '♦', '♣', '♠', '•', '◘', '○', '◙', '♂', '♀', '♪', '♫', '☼',
   '►', '◄', '↕', '‼', '¶', '§', '▬', '↨', '↑', '↓', '→', '←', '∟', '↔', '▲', '▼']

/-- The characters 128 to 255. -/
def high : List Char :=
  ['Ç', 'ü', 'é', 'â', 'ä', 'à', 'å', 'ç', 'ê', 'ë', 'è', 'ï', 'î', 'ì', 'Ä', 'Å',
   'É', 'æ', 'Æ', 'ô', 'ö', 'ò', 'û', 'ù', 'ÿ', 'Ö', 'Ü', '¢', '£', '¥', '₧', 'ƒ',
   'á', 'í', 'ó', 'ú', 'ñ', 'Ñ', 'ª', 'º', '¿', '⌐', '¬', '½', '¼', '¡', '«', '»',
   '░', '▒', '▓', '│', '┤', '╡', '╢', '╖', '╕', '╣', '║', '╗', '╝', '╜', '╛', '┐',
   '└', '┴', '┬', '├', '─', '┼', '╞', '╟', '╚', '╔', '╩', '╦', '╠', '═', '╬', '╧',
   '╨', '╤', '╥', '╙', '╘', '╒', '╓', '╫', '╪', '┘', '┌', '█', '▄', '▌', '▐', '▀',
   'α', 'ß', 'Γ', 'π', 'Σ', 'σ', 'µ', 'τ', 'Φ', 'Θ', 'Ω', 'δ', '∞', 'φ', 'ε', '∩',
   '≡', '±', '≥', '≤', '⌠', '⌡', '÷', '≈', '°', '∙', '·', '√', 'ⁿ', '²', '■', '\u00A0']

/-- The character that a byte shows on a screen. -/
def char (b : UInt8) : Char :=
  if b < 0x20 then low.getD b.toNat ' '
  else if b < 0x7F then Char.ofNat b.toNat
  else if b = 0x7F then '⌂'
  else high.getD (b.toNat - 0x80) ' '

/-- The character of a byte in a text: the lower half is ASCII with its control codes. -/
def textChar (b : UInt8) : Char :=
  if b < 0x80 then Char.ofNat b.toNat else high.getD (b.toNat - 0x80) ' '

end CodePage437

end Interlude
