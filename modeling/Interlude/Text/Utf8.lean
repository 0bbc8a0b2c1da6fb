/-!
# Reading UTF-8 with replacement

Lumps may hold any bytes. Reading them as UTF-8 never fails: each longest start of a character
that is not carried on, and each byte that starts none, becomes one replacement character. The
reader is a fold over the bytes whose state is the character begun so far.
-/

namespace Interlude.Utf8

/-- The character that stands for bytes that are no character. -/
def replacement : Char := '\uFFFD'

/-- A character of which at least one byte is still owed: the bits read so far, the number of
bytes owed, and the range in which the next one has to lie. -/
structure Pending where
  bits : Nat
  owed : Nat
  low : UInt8
  high : UInt8
  deriving DecidableEq, Repr

/-- What a byte at the start of a character is. -/
inductive Lead where
  | whole (c : Char)
  | opens (p : Pending)
  | invalid

/-- The first byte fixes the length; for some values it also narrows the second byte, so that no
character has two spellings, none is a surrogate and none lies past the last code point. -/
def lead (b : UInt8) : Lead :=
  if b < 0x80 then .whole (Char.ofNat b.toNat)
  else if b < 0xC2 then .invalid
  else if b < 0xE0 then .opens ⟨b.toNat - 0xC0, 1, 0x80, 0xBF⟩
  else if b < 0xF0 then
    .opens ⟨b.toNat - 0xE0, 2, if b = 0xE0 then 0xA0 else 0x80, if b = 0xED then 0x9F else 0xBF⟩
  else if b < 0xF5 then
    .opens ⟨b.toNat - 0xF0, 3, if b = 0xF0 then 0x90 else 0x80, if b = 0xF4 then 0x8F else 0xBF⟩
  else .invalid

/-- The character begun, if any, and the characters read, the last one first. -/
structure State where
  pending : Option Pending
  read : List Char

/-- Takes a byte as the first one of a character. -/
def State.begin (read : List Char) (b : UInt8) : State :=
  match lead b with
  | .whole c => ⟨none, c :: read⟩
  | .opens p => ⟨some p, read⟩
  | .invalid => ⟨none, replacement :: read⟩

/-- A byte that does not carry the begun character on ends it with a replacement and is taken as
the first byte of the next one. -/
def State.step (s : State) (b : UInt8) : State :=
  match s.pending with
  | none => .begin s.read b
  | some p =>
    if p.low ≤ b && b ≤ p.high then
      let bits := p.bits * 64 + (b.toNat - 0x80)
      if p.owed ≤ 1 then ⟨none, Char.ofNat bits :: s.read⟩
      else ⟨some ⟨bits, p.owed - 1, 0x80, 0xBF⟩, s.read⟩
    else .begin (replacement :: s.read) b

/-- The characters read, with a replacement for one that the end of the bytes cut off. -/
def State.finish (s : State) : List Char :=
  match s.pending with
  | none => s.read.reverse
  | some _ => (replacement :: s.read).reverse

/-- The characters of a run of bytes. -/
def decode (bytes : List UInt8) : List Char :=
  (bytes.foldl State.step ⟨none, []⟩).finish

/-- The text of a run of bytes. -/
def text (bytes : List UInt8) : String :=
  String.ofList (decode bytes)

end Interlude.Utf8
