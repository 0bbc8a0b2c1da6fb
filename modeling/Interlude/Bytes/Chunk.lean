/-!
# Runs of equal length

Cutting a list of bytes into runs of a given length, of which the last one may be shorter.
-/

namespace Interlude.Bytes

/-- The list cut into runs of `size` bytes; a `size` of zero counts as one. -/
def chunks (size : Nat) : List UInt8 → List (List UInt8)
  | [] => []
  | b :: rest => (b :: rest.take (size - 1)) :: chunks size (rest.drop (size - 1))
termination_by bytes => bytes.length

/-- Cutting loses nothing. -/
@[simp] theorem flatten_chunks (size : Nat) (bytes : List UInt8) :
    (chunks size bytes).flatten = bytes := by
  induction bytes using chunks.induct size with
  | case1 => simp [chunks]
  | case2 b rest ih => simp [chunks, ih]

end Interlude.Bytes
