import Mathlib
import Interlude.Bytes.Cursor

/-!
# What readers make of the bytes ahead

A read of fixed width succeeds exactly where that many bytes are left, and gives what they say. A reader
yields a value from a run of bytes if it gives the value wherever the run lies ahead, whatever follows,
and moves just past the run. Readers one after the other yield from runs one after the other, so that a
format is read piece by piece as it is written.
-/

namespace Interlude.Cursor

variable {α β : Type} {c c' : Cursor}

/-! ### Single reads -/

/-- Giving a value reads nothing. -/
theorem pure_eq_ok_iff {a b : α} : (pure a : Reading α) c = .ok (b, c') ↔ b = a ∧ c' = c := by
  change Except.ok (a, c) = .ok (b, c') ↔ _
  rw [Except.ok.injEq, Prod.mk.injEq, eq_comm, eq_comm (a := c)]

/-- The second of two readers goes on where the first one has stopped. -/
theorem bind_eq_ok_iff {x : Reading α} {f : α → Reading β} {b : β} :
    (x >>= f) c = .ok (b, c') ↔ ∃ a mid, x c = .ok (a, mid) ∧ f a mid = .ok (b, c') := by
  change (x c >>= fun p => f p.1 p.2) = _ ↔ _
  rcases x c with e | ⟨a, mid⟩
  · constructor
    · exact fun h => nomatch h
    · rintro ⟨_, _, h, -⟩
      cases h
  · constructor
    · exact fun h => ⟨a, mid, rfl, h⟩
    · rintro ⟨_, _, h, hf⟩
      obtain ⟨rfl, rfl⟩ := Prod.mk.inj (Except.ok.inj h)
      exact hf

/-- Bytes can be passed over where so many are left. -/
theorem skip_eq_ok_iff {n : Nat} :
    skip n c = .ok ((), c') ↔ n ≤ c.remaining ∧ c' = c.advance n := by
  unfold skip
  split
  · rename_i hshort
    simp only [reduceCtorEq, false_iff, not_and]
    intro hlong
    omega
  · rename_i hlong
    rw [Except.ok.injEq, Prod.mk.injEq, eq_comm (a := c')]
    exact and_congr_left fun _ => ⟨fun _ => not_lt.mp hlong, fun _ => rfl⟩

/-- The next byte is the first one of those that are left. -/
theorem u8_eq_ok_iff {b : UInt8} : u8 c = .ok (b, c') ↔ c.rest.head? = some b ∧ c' = c.advance 1 := by
  have hhead : c.rest.head? = c.data.data[c.pos]? := by
    rw [rest, List.head?_drop, Array.getElem?_toList]
  rw [hhead]
  unfold u8
  split
  · rename_i hinside
    rw [Array.getElem?_eq_getElem hinside, Except.ok.injEq, Prod.mk.injEq, Option.some.injEq,
      eq_comm (a := c')]
    rfl
  · rename_i houtside
    rw [Array.getElem?_eq_none (not_lt.mp houtside)]
    simp

/-- A number of fixed width is what the next bytes say. -/
theorem number_eq_ok_iff {width : Nat} {f : Nat → α} {a : α} :
    (do return f (Bytes.ofLE (← take width)) : Reading α) c = .ok (a, c') ↔
      c.pos + width ≤ c.data.size ∧ a = f (Bytes.ofLE (c.rest.take width)) ∧ c' = c.advance width := by
  simp only [bind_eq_ok_iff, take_eq_ok_iff, pure_eq_ok_iff]
  constructor
  · rintro ⟨_, _, ⟨hinside, rfl, rfl⟩, rfl, rfl⟩
    exact ⟨hinside, rfl, rfl⟩
  · rintro ⟨hinside, rfl, rfl⟩
    exact ⟨_, _, ⟨hinside, rfl, rfl⟩, rfl, rfl⟩

/-- A number of two bytes with a sign, in one step. -/
theorem i16_eq : i16 = do return (UInt16.ofNat (Bytes.ofLE (← take 2))).toInt16 := by
  simp only [i16, u16, bind_assoc, pure_bind]

/-- A number of four bytes with a sign, in one step. -/
theorem i32_eq : i32 = do return (UInt32.ofNat (Bytes.ofLE (← take 4))).toInt32 := by
  simp only [i32, u32, bind_assoc, pure_bind]

/-- A number of two bytes with a sign is what the next bytes say. -/
theorem i16_eq_ok_iff {n : Int16} :
    i16 c = .ok (n, c') ↔ c.pos + 2 ≤ c.data.size ∧
      n = (UInt16.ofNat (Bytes.ofLE (c.rest.take 2))).toInt16 ∧ c' = c.advance 2 := by
  rw [i16_eq]
  exact number_eq_ok_iff (f := fun n => (UInt16.ofNat n).toInt16)

/-- A number of four bytes with a sign is what the next bytes say. -/
theorem i32_eq_ok_iff {n : Int32} :
    i32 c = .ok (n, c') ↔ c.pos + 4 ≤ c.data.size ∧
      n = (UInt32.ofNat (Bytes.ofLE (c.rest.take 4))).toInt32 ∧ c' = c.advance 4 := by
  rw [i32_eq]
  exact number_eq_ok_iff (f := fun n => (UInt32.ofNat n).toInt32)

/-! ### Runs of bytes -/

/-- Wherever some bytes lie ahead, a reader gives a value and moves just past them. -/
def Yields (read : Reading α) (bytes : List UInt8) (a : α) : Prop :=
  ∀ c : Cursor, c.pos ≤ c.data.size → bytes <+: c.rest → read c = .ok (a, c.advance bytes.length)

/-- Where bytes lie ahead, so many are left. -/
theorem add_length_le {bytes : List UInt8} (hpos : c.pos ≤ c.data.size) (hbytes : bytes <+: c.rest) :
    c.pos + bytes.length ≤ c.data.size := by
  have hlength := hbytes.length_le
  rw [length_rest, remaining] at hlength
  omega

/-- Behind the first of two runs the second one lies ahead. -/
theorem prefix_rest_advance {first second : List UInt8} (hbytes : first ++ second <+: c.rest) :
    second <+: (c.advance first.length).rest := by
  obtain ⟨more, hmore⟩ := hbytes
  rw [rest_advance, ← hmore, List.append_assoc, List.drop_left]
  exact List.prefix_append second more

/-- Giving a value takes no bytes. -/
theorem yields_pure (a : α) : Yields (pure a) [] a :=
  fun _ _ _ => pure_eq_ok_iff.mpr ⟨rfl, rfl⟩

/-- Two readers, one after the other, take their runs one after the other. -/
theorem Yields.bind {x : Reading α} {f : α → Reading β} {first second : List UInt8} {a : α} {b : β}
    (hx : Yields x first a) (hf : Yields (f a) second b) : Yields (x >>= f) (first ++ second) b := by
  intro c hpos hbytes
  have hfirst : first <+: c.rest := (List.prefix_append first second).trans hbytes
  have hgoes := hf _ (add_length_le hpos hfirst) (prefix_rest_advance hbytes)
  refine bind_eq_ok_iff.mpr ⟨a, _, hx c hpos hfirst, hgoes.trans ?_⟩
  rw [List.length_append, advance, advance, advance, Nat.add_assoc]

/-- What is made of a value that is read takes no further bytes. -/
theorem Yields.map {x : Reading α} {bytes : List UInt8} {a : α} (hx : Yields x bytes a) (f : α → β) :
    Yields (do return f (← x)) bytes (f a) := by
  have hboth : Yields (do return f (← x)) (bytes ++ []) (f a) := hx.bind (yields_pure (f a))
  rwa [List.append_nil] at hboth

/-- The next bytes are the run. -/
theorem yields_take (bytes : List UInt8) : Yields (take bytes.length) bytes bytes :=
  fun _ hpos hbytes =>
    take_eq_ok_iff.mpr ⟨add_length_le hpos hbytes, List.prefix_iff_eq_take.mp hbytes, rfl⟩

/-- A run of the right length is passed over. -/
theorem yields_skip (bytes : List UInt8) : Yields (skip bytes.length) bytes () := by
  intro c hpos hbytes
  have hinside := add_length_le hpos hbytes
  exact skip_eq_ok_iff.mpr ⟨by rw [remaining]; omega, rfl⟩

/-- The next byte is the one that lies ahead. -/
theorem yields_u8 (b : UInt8) : Yields u8 [b] b := by
  intro c _ hbytes
  obtain ⟨more, hmore⟩ := hbytes
  exact u8_eq_ok_iff.mpr ⟨by rw [← hmore]; rfl, rfl⟩

/-- A number that is written at a width is read back up to the numbers that the width cannot hold. -/
theorem yields_number (width n : Nat) (f : Nat → α) :
    Yields (do return f (Bytes.ofLE (← take width))) (Bytes.toLE width n)
      (f (n % Bytes.capacity width)) := by
  intro c hpos hbytes
  have hinside := add_length_le hpos hbytes
  have htake := List.prefix_iff_eq_take.mp hbytes
  rw [Bytes.length_toLE] at hinside htake ⊢
  refine number_eq_ok_iff.mpr ⟨hinside, ?_, rfl⟩
  rw [← htake, Bytes.ofLE_toLE]

/-- A number of two bytes is read back with its sign. -/
theorem yields_i16 (n : UInt16) : Yields i16 (Bytes.toLE 2 n.toNat) n.toInt16 := by
  have hyields := yields_number 2 n.toNat fun n => (UInt16.ofNat n).toInt16
  rw [show n.toNat % Bytes.capacity 2 = n.toNat from Nat.mod_eq_of_lt n.toNat_lt,
    UInt16.ofNat_toNat] at hyields
  rwa [i16_eq]

/-- A number of four bytes is read back with its sign. -/
theorem yields_i32 (n : UInt32) : Yields i32 (Bytes.toLE 4 n.toNat) n.toInt32 := by
  have hyields := yields_number 4 n.toNat fun n => (UInt32.ofNat n).toInt32
  rw [show n.toNat % Bytes.capacity 4 = n.toNat from Nat.mod_eq_of_lt n.toNat_lt,
    UInt32.ofNat_toNat] at hyields
  rwa [i32_eq]

/-- A number with a sign is read back from its two bytes. -/
theorem yields_signed16 (n : Int16) : Yields i16 (Bytes.toLE 2 n.toUInt16.toNat) n := by
  have hyields := yields_i16 n.toUInt16
  rwa [Int16.toInt16_toUInt16] at hyields

/-- A number with a sign is read back from its four bytes. -/
theorem yields_signed32 (n : Int32) : Yields i32 (Bytes.toLE 4 n.toUInt32.toNat) n := by
  have hyields := yields_i32 n.toUInt32
  rwa [Int32.toInt32_toUInt32] at hyields

/-- Items that are written one after the other are read back one after the other. -/
theorem Yields.times {read : Reading α} {bytes : β → List UInt8} {value : β → α} {items : List β}
    (h : ∀ item ∈ items, Yields read (bytes item) (value item)) :
    Yields (times items.length read) (items.flatMap bytes) (items.map value) := by
  induction items with
  | nil => exact yields_pure []
  | cons item rest ih =>
    obtain ⟨hitem, hrest⟩ := List.forall_mem_cons.mp h
    exact hitem.bind ((ih hrest).map (value item :: ·))

end Interlude.Cursor
