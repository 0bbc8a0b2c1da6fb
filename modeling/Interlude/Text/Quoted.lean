import Interlude.Text.Hidden

/-!
# Quoted text

Text of unknown origin is shown in messages between quotes, with everything escaped that a reader
could not see or could take for a quote.
-/

namespace Interlude.Text

/-- A character between quotes. -/
def showChar (c : Char) : List Char :=
  if c = '\x00' then ['\\', '0']
  else if c = '\t' then ['\\', 't']
  else if c = '\r' then ['\\', 'r']
  else if c = '\n' then ['\\', 'n']
  else if c = '"' then ['\\', '"']
  else if c = '\\' then ['\\', '\\']
  else if isHidden c then
    ['\\', 'u', '\x7b'] ++ (Nat.toDigits 16 c.toNat) ++ ['\x7d']
  else [c]

/-- A text between quotes. -/
def quoted (s : List Char) : String :=
  String.ofList ('"' :: s.flatMap showChar ++ ['"'])

end Interlude.Text
