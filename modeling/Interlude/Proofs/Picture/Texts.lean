import Mathlib
import Interlude.Proofs.Picture.Decoding

/-!
# Texts are no pictures

Pictures have no mark of their own, but the bytes of a text are letters, blanks and ends of lines, none of
which is less than a tab. Read as a picture, such bytes have offsets that lead far away: either they are
negative, or they lead past the end of every text of a sensible length.
-/

namespace Interlude

/-- A number all of whose digits are at least so large is at least as large as the one with these
digits. -/
theorem Bytes.ofLE_replicate_le {low : UInt8} {bytes : List UInt8} (h : ∀ b ∈ bytes, low ≤ b) :
    ofLE (List.replicate bytes.length low) ≤ ofLE bytes := by
  induction bytes with
  | nil => exact le_rfl
  | cons b bytes ih =>
    obtain ⟨hfirst, hothers⟩ := List.forall_mem_cons.mp h
    have hdigit : low.toNat ≤ b.toNat := UInt8.le_iff_toNat_le.mp hfirst
    have hrest := ih hothers
    rw [List.length_cons, List.replicate_succ, ofLE, ofLE]
    omega

namespace Picture

/-- Bytes that may be those of a text: none of them is less than a tab. -/
def IsText (lump : ByteArray) : Prop :=
  ∀ b ∈ lump.data.toList, 9 ≤ b

/-- A number of four bytes of a text that is not negative is at least this large. -/
theorem le_of_i32_of_isText {lump : ByteArray} (htext : IsText lump) {position : Nat} {n : Int32}
    {c : Cursor} (h : Cursor.i32 ⟨lump, position⟩ = .ok (n, c)) (hnonneg : 0 ≤ n) :
    0x09090909 ≤ n.toNatClampNeg := by
  obtain ⟨hinside, rfl, -⟩ := Cursor.i32_eq_ok_iff.mp h
  generalize hbytes : (Cursor.mk lump position).rest.take 4 = bytes at hnonneg ⊢
  have hlength : bytes.length = 4 := by
    rw [← hbytes, List.length_take, Cursor.length_rest, Cursor.remaining]
    dsimp only at hinside ⊢
    omega
  have hlow : ∀ b ∈ bytes, 9 ≤ b := by
    intro b hb
    rw [← hbytes] at hb
    exact htext b (List.mem_of_mem_drop (List.mem_of_mem_take hb))
  have hle := Bytes.ofLE_replicate_le hlow
  have hlt := Bytes.ofLE_lt bytes
  rw [hlength] at hle hlt
  rw [toNatClampNeg_toInt32 hnonneg, UInt32.toNat_ofNat_of_lt' hlt]
  exact hle

/-- The offset of a column in a text is at least that large. -/
theorem le_of_columnOffset? {lump : ByteArray} (htext : IsText lump) {column offset : Nat}
    (h : columnOffset? lump column = some offset) : 0x09090909 ≤ offset := by
  obtain ⟨n, c, hread, hnonneg, rfl⟩ := columnOffset?_eq_some_iff.mp h
  exact le_of_i32_of_isText htext hread hnonneg

/-- A text that is not longer than its least offset is no picture. -/
theorem decode?_of_isText {lump : ByteArray} (htext : IsText lump) (hsize : lump.size ≤ 0x09090909) :
    decode? lump = none := by
  rw [Option.eq_none_iff_forall_ne_some]
  intro p hp
  obtain ⟨width, height, left, top, c, columns, -, hwidth, -, hcolumns, -⟩ := decode?_eq_some_iff.mp hp
  have hsome : 0 < width.toNatClampNeg := by
    rw [Int16.lt_iff_toInt_lt] at hwidth
    exact Int.lt_toNat.mpr hwidth
  rw [← Nat.succ_pred_eq_of_pos hsome, List.range_succ_eq_map] at hcolumns
  obtain ⟨posts, -, hfirst, -, -⟩ := List.forall₂_cons_left_iff.mp hcolumns
  obtain ⟨offset, hoffset, hposts⟩ := Option.bind_eq_some_iff.mp hfirst
  rw [columnPosts_of_size_le (hsize.trans (le_of_columnOffset? htext hoffset))] at hposts
  contradiction

end Picture
end Interlude
