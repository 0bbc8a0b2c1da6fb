/-!
# Byte order

A number of fixed width is a run of bytes, least significant byte first in archives and most
significant byte first in images. Writing at a width that holds the number and reading it back
gives the number again (`ofLE_toLE`).
-/

namespace Interlude.Bytes

/-- The number whose digits to the base 256 are the given bytes, least significant first. -/
def ofLE : List UInt8 → Nat
  | [] => 0
  | b :: rest => b.toNat + 256 * ofLE rest

/-- The lowest `width` base-256 digits of a number, least significant first. -/
def toLE : (width : Nat) → Nat → List UInt8
  | 0, _ => []
  | width + 1, n => UInt8.ofNat n :: toLE width (n / 256)

/-- The number whose digits to the base 256 are the given bytes, most significant first. -/
def ofBE (bytes : List UInt8) : Nat :=
  ofLE bytes.reverse

/-- The lowest `width` base-256 digits of a number, most significant first. -/
def toBE (width n : Nat) : List UInt8 :=
  (toLE width n).reverse

/-- How many numbers there are that a width can hold. -/
def capacity : (width : Nat) → Nat
  | 0 => 1
  | width + 1 => 256 * capacity width

@[simp] theorem length_toLE (width n : Nat) : (toLE width n).length = width := by
  induction width generalizing n with
  | zero => rfl
  | succ width ih => simp [toLE, ih]

@[simp] theorem length_toBE (width n : Nat) : (toBE width n).length = width := by
  simp [toBE]

/-- What a run of bytes holds is a number that its length can hold. -/
theorem ofLE_lt (bytes : List UInt8) : ofLE bytes < capacity bytes.length := by
  induction bytes with
  | nil => simp [ofLE, capacity]
  | cons b rest ih =>
    have := b.toNat_lt
    simp only [ofLE, List.length_cons, capacity]
    omega

/-- What is written at a width is read back up to the numbers that the width cannot hold. -/
theorem ofLE_toLE (width n : Nat) : ofLE (toLE width n) = n % capacity width := by
  induction width generalizing n with
  | zero => simp [toLE, ofLE, capacity, Nat.mod_one]
  | succ width ih =>
    rw [capacity, Nat.mod_mul]
    simp [toLE, ofLE, ih]

/-- The same for the most significant byte first. -/
theorem ofBE_toBE (width n : Nat) : ofBE (toBE width n) = n % capacity width := by
  simp [ofBE, toBE, ofLE_toLE]

end Interlude.Bytes
