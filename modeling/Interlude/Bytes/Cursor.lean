import Interlude.Bytes.Order

/-!
# Reading from a buffer

A `Cursor` is a position in a buffer, which may lie past its end. What it has still to read is
`rest`; every operation is a statement about that list (`take_eq_ok_iff`). A read that fails
leaves no new cursor, so a caller who keeps the old one has not moved.
-/

namespace Interlude

/-- The ways in which a read can fail, with the position of the cursor. -/
inductive ReadError where
  /-- Fewer bytes are left than were asked for. -/
  | unexpectedEnd (offset : Nat)
  /-- A run that begins past the end of the buffer lies nowhere in it, not even when it is empty. -/
  | outside (offset : Nat)
  deriving DecidableEq, Repr

/-- The text of a read error. -/
def ReadError.message : ReadError → String
  | .unexpectedEnd offset => s!"unexpected end of data at offset {offset}"
  | .outside offset => s!"no data at offset {offset}"

/-- A position in a buffer. -/
structure Cursor where
  data : ByteArray
  pos : Nat

/-- A reader takes a value from a cursor and moves it, or fails. -/
abbrev Reading := StateT Cursor (Except ReadError)

namespace Cursor

/-- The cursor at the start of a buffer. -/
def start (data : ByteArray) : Cursor := ⟨data, 0⟩

/-- The bytes from the position to the end of the buffer. -/
def rest (c : Cursor) : List UInt8 := c.data.data.toList.drop c.pos

/-- The number of bytes from the position to the end of the buffer. -/
def remaining (c : Cursor) : Nat := c.data.size - c.pos

/-- The cursor `n` bytes further on. -/
def advance (c : Cursor) (n : Nat) : Cursor := { c with pos := c.pos + n }

/-- Moving is always possible; a later read reports a position past the end. -/
def seek (pos : Nat) : Reading Unit :=
  fun c => .ok ((), { c with pos })

/-- Passes over `n` bytes. -/
def skip (n : Nat) : Reading Unit := fun c =>
  if c.remaining < n then .error (.unexpectedEnd c.pos) else .ok ((), c.advance n)

/-- The next `n` bytes. -/
def take (n : Nat) : Reading (List UInt8) := fun c =>
  if c.remaining < n then .error (.unexpectedEnd c.pos)
  else if c.data.size < c.pos then .error (.outside c.pos)
  else .ok ((c.data.extract c.pos (c.pos + n)).data.toList, c.advance n)

/-- The next byte. -/
def u8 : Reading UInt8 := fun c =>
  if h : c.pos < c.data.size then .ok (c.data[c.pos], c.advance 1)
  else .error (.unexpectedEnd c.pos)

/-- The next two bytes as a number without sign, least significant first. -/
def u16 : Reading UInt16 := do
  return UInt16.ofNat (Bytes.ofLE (← take 2))

/-- The next four bytes as a number without sign, least significant first. -/
def u32 : Reading UInt32 := do
  return UInt32.ofNat (Bytes.ofLE (← take 4))

/-- The next two bytes as a number in two's complement. -/
def i16 : Reading Int16 := do
  return (← u16).toInt16

/-- The next four bytes as a number in two's complement. -/
def i32 : Reading Int32 := do
  return (← u32).toInt32

/-- The same reader `n` times over. -/
def times (n : Nat) (read : Reading α) : Reading (List α) :=
  match n with
  | 0 => return []
  | n + 1 => do
    let first ← read
    return first :: (← times n read)

@[simp] theorem length_rest (c : Cursor) : c.rest.length = c.remaining := by
  simp [rest, remaining]

@[simp] theorem rest_advance (c : Cursor) (n : Nat) : (c.advance n).rest = c.rest.drop n := by
  simp [rest, advance, List.drop_drop]

theorem toList_extract_pos (c : Cursor) (n : Nat) :
    (c.data.extract c.pos (c.pos + n)).data.toList = c.rest.take n := by
  simp [rest, ByteArray.data_extract, List.extract_eq_take_drop]

/-- Taking succeeds exactly inside the buffer, with the bytes that lie ahead. -/
theorem take_eq_ok_iff {c c' : Cursor} {n : Nat} {bytes : List UInt8} :
    take n c = .ok (bytes, c') ↔
      c.pos + n ≤ c.data.size ∧ bytes = c.rest.take n ∧ c' = c.advance n := by
  unfold take remaining
  rw [toList_extract_pos]
  split
  · simp
    omega
  · split
    · simp
      omega
    · have : c.pos + n ≤ c.data.size := by omega
      simp [this, eq_comm]

end Cursor

end Interlude
