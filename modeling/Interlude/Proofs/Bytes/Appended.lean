import Mathlib
import Interlude.Lump.Texture
import Interlude.Proofs.Bytes.Yields

/-!
# Bytes appended to a buffer

The length of a buffer decides whether a read succeeds, and nothing else. So a reader that succeeds on a
buffer does the same when more bytes follow at the end of the buffer: it gives the same value and stops at
the same place. The reads of fixed width have this property, and readers that are put together from such
readers have it as well.
-/

namespace Interlude

namespace Cursor

variable {α β : Type} {c : Cursor} {more : ByteArray}

/-- The same position in the buffer with more bytes at its end. -/
def extend (c : Cursor) (more : ByteArray) : Cursor :=
  { c with data := c.data ++ more }

/-- The buffer has grown by the bytes that were appended. -/
theorem size_extend (c : Cursor) : (c.extend more).data.size = c.data.size + more.size :=
  ByteArray.size_append

/-- What lies ahead still lies ahead. -/
theorem rest_prefix_extend (c : Cursor) (more : ByteArray) : c.rest <+: (c.extend more).rest := by
  have hdata : (c.extend more).data.data.toList = c.data.data.toList ++ more.data.toList := by
    simp [extend]
  rw [rest, rest, hdata, List.drop_append]
  exact List.prefix_append _ _

/-- So do the next bytes, if there are so many. -/
theorem take_rest_extend {n : Nat} (h : c.pos + n ≤ c.data.size) :
    (c.extend more).rest.take n = c.rest.take n := by
  obtain ⟨appended, happended⟩ := rest_prefix_extend c more
  rw [← happended, List.take_append_of_le_length]
  rw [length_rest, remaining]
  omega

/-- A reader persists if what it gives on a buffer it also gives when more bytes follow. -/
def Persists (read : Reading α) : Prop :=
  ∀ (c : Cursor) (a : α) (c' : Cursor), read c = .ok (a, c') → ∀ more : ByteArray,
    read (c.extend more) = .ok (a, c'.extend more)

/-- Giving a value persists. -/
theorem persists_pure (a : α) : Persists (pure a : Reading α) := by
  intro c b c' h more
  obtain ⟨rfl, rfl⟩ := pure_eq_ok_iff.mp h
  rfl

/-- Two readers that persist do so one after the other. -/
theorem Persists.bind {x : Reading α} {f : α → Reading β} (hx : Persists x)
    (hf : ∀ a, Persists (f a)) : Persists (x >>= f) := by
  intro c b c' h more
  obtain ⟨a, mid, hread, hgoes⟩ := bind_eq_ok_iff.mp h
  exact bind_eq_ok_iff.mpr ⟨a, mid.extend more, hx c a mid hread more, hf a mid b c' hgoes more⟩

/-- Taking bytes persists. -/
theorem persists_take (n : Nat) : Persists (take n) := by
  intro c bytes c' h more
  obtain ⟨hinside, rfl, rfl⟩ := take_eq_ok_iff.mp h
  refine take_eq_ok_iff.mpr ⟨?_, (take_rest_extend hinside).symm, rfl⟩
  rw [size_extend]
  exact hinside.trans (Nat.le_add_right _ _)

/-- Passing over bytes persists. -/
theorem persists_skip (n : Nat) : Persists (skip n) := by
  intro c _ c' h more
  obtain ⟨hinside, rfl⟩ := skip_eq_ok_iff.mp h
  refine skip_eq_ok_iff.mpr ⟨?_, rfl⟩
  rw [remaining, size_extend]
  rw [remaining] at hinside
  exact hinside.trans (Nat.sub_le_sub_right (Nat.le_add_right _ _) _)

/-- Reading a byte persists. -/
theorem persists_u8 : Persists u8 := by
  intro c b c' h more
  obtain ⟨hhead, rfl⟩ := u8_eq_ok_iff.mp h
  obtain ⟨rest, hrest⟩ := List.head?_eq_some_iff.mp hhead
  obtain ⟨appended, happended⟩ := rest_prefix_extend c more
  refine u8_eq_ok_iff.mpr ⟨?_, rfl⟩
  rw [← happended, hrest]
  rfl

/-- Reading a number of two bytes persists. -/
theorem persists_i16 : Persists i16 := by
  rw [i16_eq]
  exact (persists_take 2).bind fun _ => persists_pure _

/-- Reading a number of four bytes persists. -/
theorem persists_i32 : Persists i32 := by
  rw [i32_eq]
  exact (persists_take 4).bind fun _ => persists_pure _

/-- A reader that persists does so any number of times. -/
theorem Persists.times {read : Reading α} (h : Persists read) (n : Nat) : Persists (times n read) := by
  induction n with
  | zero => exact persists_pure []
  | succ n ih => exact h.bind fun _ => ih.bind fun _ => persists_pure _

end Cursor

open Cursor

namespace Lump

/-! ### Wall textures -/

/-- Reading a name persists. -/
theorem persists_readName : Persists readName :=
  (persists_take nameWidth).bind fun _ => persists_pure _

/-- Reading a counted list persists if reading its items does. -/
theorem persists_readCounted {α : Type} {item : Reading α} (h : Persists item) :
    Persists (readCounted item) :=
  persists_i32.bind fun count => h.times count.toNatClampNeg

/-- Reading a placement persists. -/
theorem persists_readPlacement : Persists readPlacement :=
  persists_i16.bind fun _ => persists_i16.bind fun _ => persists_i16.bind fun _ =>
    persists_i16.bind fun _ => persists_i16.bind fun _ => persists_pure _

/-- Reading a texture persists. -/
theorem persists_readTexture : Persists readTexture :=
  persists_readName.bind fun _ => persists_i32.bind fun _ => persists_i16.bind fun _ =>
    persists_i16.bind fun _ => persists_i32.bind fun _ => persists_i16.bind fun count =>
      (persists_readPlacement.times count.toNatClampNeg).bind fun _ => persists_pure _

end Lump

end Interlude
