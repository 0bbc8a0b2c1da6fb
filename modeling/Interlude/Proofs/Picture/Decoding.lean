import Mathlib
import Interlude.Picture.Columns
import Interlude.Proofs.Bytes.Yields

/-!
# When a lump is read as a picture

The parts of a picture are read one after the other, and each of them decides whether the lump is one:
the header, which must give a size, and for each column an offset that is not negative and leads to runs.
-/

namespace Interlude.Picture

/-! ### Numbers with a sign -/

/-- A number of two bytes that is small enough is the same with a sign. -/
theorem toInt_toInt16_of_le {n : UInt16} (h : n ≤ 32767) : n.toInt16.toInt = n.toNat := by
  have hle : n.toNat ≤ 32767 := UInt16.le_iff_toNat_le.mp h
  rw [← Int16.toInt_toBitVec, UInt16.toBitVec_toInt16, BitVec.toInt_eq_toNat_of_lt]
  · rfl
  · rw [UInt16.toNat_toBitVec]
    omega

/-- Such a number counts as much as without a sign. -/
theorem toNatClampNeg_toInt16 {n : UInt16} (h : n ≤ 32767) : n.toInt16.toNatClampNeg = n.toNat := by
  rw [Int16.toNatClampNeg, toInt_toInt16_of_le h, Int.toNat_natCast]

/-- Such a number is positive unless it is zero. -/
theorem toInt16_pos {n : UInt16} (hone : 1 ≤ n) (h : n ≤ 32767) : 0 < n.toInt16 := by
  have hpos : 1 ≤ n.toNat := UInt16.le_iff_toNat_le.mp hone
  rw [Int16.lt_iff_toInt_lt, toInt_toInt16_of_le h]
  exact Int.natCast_pos.mpr hpos

/-- A number of four bytes with a sign is the same without one, or less by what four bytes can hold. -/
theorem toInt_toInt32 (n : UInt32) :
    n.toInt32.toInt = if n.toNat < 2 ^ 31 then (n.toNat : Int) else n.toNat - 2 ^ 32 := by
  rw [← Int32.toInt_toBitVec, UInt32.toBitVec_toInt32, BitVec.toInt_eq_toNat_cond,
    UInt32.toNat_toBitVec]
  split
  · rw [if_pos (by omega)]
  · rw [if_neg (by omega)]
    rfl

/-- It is not negative if it is small enough. -/
theorem toInt32_nonneg_iff {n : UInt32} : 0 ≤ n.toInt32 ↔ n.toNat < 2 ^ 31 := by
  have hlt := n.toNat_lt
  rw [Int32.le_iff_toInt_le, toInt_toInt32]
  change 0 ≤ _ ↔ _
  split
  · rename_i hsmall
    exact iff_of_true (Int.natCast_nonneg _) hsmall
  · rename_i hlarge
    exact iff_of_false (by omega) hlarge

/-- Then it counts as much as without a sign. -/
theorem toNatClampNeg_toInt32 {n : UInt32} (h : 0 ≤ n.toInt32) : n.toInt32.toNatClampNeg = n.toNat := by
  rw [Int32.toNatClampNeg, toInt_toInt32, if_pos (toInt32_nonneg_iff.mp h), Int.toNat_natCast]

/-! ### Columns -/

/-- The offset of a column is there if it can be read and is not negative. -/
theorem columnOffset?_eq_some_iff {lump : ByteArray} {column offset : Nat} :
    columnOffset? lump column = some offset ↔
      ∃ n c, Cursor.i32 ⟨lump, headerSize + 4 * column⟩ = .ok (n, c) ∧ 0 ≤ n ∧
        offset = n.toNatClampNeg := by
  unfold columnOffset?
  constructor
  · intro h
    split at h
    · contradiction
    · rename_i n c hread
      split at h
      · contradiction
      · rename_i hnonneg
        exact ⟨n, c, hread, Int32.not_lt.mp hnonneg, (Option.some.inj h).symm⟩
  · rintro ⟨n, c, hread, hnonneg, rfl⟩
    rw [hread]
    dsimp only
    rw [if_neg (Int32.not_lt.mpr hnonneg)]

/-- Past the end of a lump there is no column. -/
theorem columnPosts_of_size_le {lump : ByteArray} {position : Nat} (h : lump.size ≤ position)
    (column : UInt16) (room : Nat) : columnPosts column room ⟨lump, position⟩ = none := by
  rw [columnPosts]
  cases hread : readRun ⟨lump, position⟩ with
  | error e => rfl
  | ok read =>
    obtain ⟨row, mid, hrow, -⟩ := Cursor.bind_eq_ok_iff.mp hread
    obtain ⟨hhead, -⟩ := Cursor.u8_eq_ok_iff.mp hrow
    have hnil : (Cursor.mk lump position).rest = [] :=
      List.drop_eq_nil_of_le (Array.length_toList.trans_le h)
    rw [hnil] at hhead
    contradiction

/-! ### Pictures -/

/-- A list of values that may be missing is there exactly if all of them are. -/
theorem mapM_eq_some_iff {α β : Type} {f : α → Option β} {items : List α} {values : List β} :
    items.mapM f = some values ↔ List.Forall₂ (fun item value => f item = some value) items values := by
  induction items generalizing values with
  | nil => simp [List.forall₂_nil_left_iff, eq_comm]
  | cons item items ih =>
    simp only [List.mapM_cons, Option.bind_eq_bind, Option.bind_eq_some_iff, ih,
      List.forall₂_cons_left_iff, Option.pure_def, Option.some.injEq]
    grind

/-- A lump is read as a picture exactly if its header can be read, gives a size, and every column can be
read. -/
theorem decode?_eq_some_iff {lump : ByteArray} {p : Picture} : decode? lump = some p ↔
    ∃ width height left top c columns,
      readHeader (.start lump) = .ok ((width, height, left, top), c) ∧ 0 < width ∧ 0 < height ∧
      List.Forall₂ (fun column posts => column? lump height.toNatClampNeg column = some posts)
        (List.range width.toNatClampNeg) columns ∧
      p = ⟨width.toUInt16, height.toUInt16, left, top, columns.flatten⟩ := by
  unfold decode?
  constructor
  · intro h
    split at h
    · contradiction
    · split at h
      · contradiction
      · rename_i width height left top c hheader hpositive
        obtain ⟨hwidth, hheight⟩ := not_or.mp hpositive
        obtain ⟨columns, hcolumns, h⟩ := Option.bind_eq_some_iff.mp h
        exact ⟨width, height, left, top, c, columns, hheader, Int16.not_le.mp hwidth,
          Int16.not_le.mp hheight, mapM_eq_some_iff.mp hcolumns, (Option.some.inj h).symm⟩
  · rintro ⟨width, height, left, top, c, columns, hheader, hwidth, hheight, hcolumns, rfl⟩
    rw [hheader]
    dsimp only
    rw [if_neg (not_or.mpr ⟨Int16.not_le.mpr hwidth, Int16.not_le.mpr hheight⟩),
      mapM_eq_some_iff.mpr hcolumns]
    rfl

/-- A picture has bytes. -/
theorem size_pos_of_decode? {lump : ByteArray} {p : Picture} (h : decode? lump = some p) :
    0 < lump.size := by
  obtain ⟨_, _, _, _, _, _, hheader, -⟩ := decode?_eq_some_iff.mp h
  obtain ⟨_, _, hwidth, -⟩ := Cursor.bind_eq_ok_iff.mp hheader
  obtain ⟨hinside, -⟩ := Cursor.i16_eq_ok_iff.mp hwidth
  exact Nat.lt_of_lt_of_le (by decide : 0 < 0 + 2) hinside

end Interlude.Picture
