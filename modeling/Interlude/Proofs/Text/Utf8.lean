import Mathlib
import Interlude.Text.Utf8

/-!
# Reading UTF-8 back

The reader that never fails is right about bytes that are UTF-8: it reads every text back from its bytes. A
character takes one to four bytes. The first one tells how many and holds its highest bits; each of the others
holds six more. The ranges to which the reader holds the second byte leave out no character, for no character
is a surrogate, lies past the last code point or is written with more bytes than it needs.
-/

namespace Interlude.Utf8

variable {read : List Char} {bits owed m n : Nat} {low high : UInt8} {c : Char}

/-! ### Single bytes -/

/-- A byte below 128 is a character. -/
theorem lead_one (hn : n < 128) : lead (.ofNat n) = .whole (Char.ofNat n) := by
  have htoNat : (UInt8.ofNat n).toNat = n := UInt8.toNat_ofNat_of_lt' (hn.trans (by decide))
  have hsmall : UInt8.ofNat n < 0x80 := by
    rw [UInt8.lt_iff_toNat_lt, htoNat]
    exact hn
  rw [lead, if_pos hsmall, htoNat]

/-- The first byte of a character of two bytes. -/
theorem lead_two (hlow : 2 ≤ n) (hn : n < 32) : lead (.ofNat (n + 192)) = .opens ⟨n, 1, 0x80, 0xBF⟩ := by
  interval_cases n <;> rfl

/-- The first byte of a character of three bytes. -/
theorem lead_three (hn : n < 16) : lead (.ofNat (n + 224)) =
    .opens ⟨n, 2, if n = 0 then 0xA0 else 0x80, if n = 13 then 0x9F else 0xBF⟩ := by
  interval_cases n <;> rfl

/-- The first byte of a character of four bytes. -/
theorem lead_four (hn : n < 5) : lead (.ofNat (n + 240)) =
    .opens ⟨n, 3, if n = 0 then 0x90 else 0x80, if n = 4 then 0x8F else 0xBF⟩ := by
  interval_cases n <;> rfl

/-- A byte that is a character is read as that. -/
theorem step_whole {b : UInt8} (h : lead b = .whole c) : State.step ⟨none, read⟩ b = ⟨none, c :: read⟩ := by
  rw [State.step, State.begin, h]

/-- A byte that opens a character leaves it to be carried on. -/
theorem step_opens {b : UInt8} {p : Pending} (h : lead b = .opens p) :
    State.step ⟨none, read⟩ b = ⟨some p, read⟩ := by
  rw [State.step, State.begin, h]

/-- A byte that holds six further bits carries a character on if it is in the range to which it is held. -/
theorem step_tail (hlow : low.toNat ≤ m + 128) (hhigh : m + 128 ≤ high.toNat) :
    State.step ⟨some ⟨bits, owed, low, high⟩, read⟩ (.ofNat (m + 128)) =
      if owed ≤ 1 then ⟨none, Char.ofNat (bits * 64 + m) :: read⟩
      else ⟨some ⟨bits * 64 + m, owed - 1, 0x80, 0xBF⟩, read⟩ := by
  have htoNat : (UInt8.ofNat (m + 128)).toNat = m + 128 :=
    UInt8.toNat_ofNat_of_lt' (hhigh.trans_lt high.toNat_lt)
  have hrange : (low ≤ .ofNat (m + 128) && .ofNat (m + 128) ≤ high) = true := by
    simp only [Bool.and_eq_true, decide_eq_true_eq, UInt8.le_iff_toNat_le, htoNat]
    exact ⟨hlow, hhigh⟩
  rw [State.step]
  simp only [hrange, if_true, htoNat, Nat.add_sub_cancel]

/-- The last byte of a character completes it. -/
theorem step_last (hlow : low.toNat ≤ m + 128) (hhigh : m + 128 ≤ high.toNat) :
    State.step ⟨some ⟨bits, 1, low, high⟩, read⟩ (.ofNat (m + 128)) =
      ⟨none, Char.ofNat (bits * 64 + m) :: read⟩ :=
  step_tail hlow hhigh

/-- A byte before the last one leaves the others owed. -/
theorem step_further (hlow : low.toNat ≤ m + 128) (hhigh : m + 128 ≤ high.toNat) :
    State.step ⟨some ⟨bits, owed + 2, low, high⟩, read⟩ (.ofNat (m + 128)) =
      ⟨some ⟨bits * 64 + m, owed + 1, 0x80, 0xBF⟩, read⟩ :=
  step_tail hlow hhigh

/-! ### Characters -/

/-- Reading the bytes of a character, with no character begun, reads the character. -/
theorem foldl_step_utf8EncodeChar (c : Char) (read : List Char) :
    (String.utf8EncodeChar c).foldl State.step ⟨none, read⟩ = ⟨none, c :: read⟩ := by
  have hvalid : c.val.toNat < 0xD800 ∨ 0xDFFF < c.val.toNat ∧ c.val.toNat < 0x110000 := c.valid
  have hc : Char.ofNat c.val.toNat = c := Char.ofNat_toNat c
  -- A byte after the second one is held to no narrower range than that of six bits.
  have hlow (m : Nat) : (0x80 : UInt8).toNat ≤ m % 64 + 128 := Nat.le_add_left _ _
  have hhigh (m : Nat) : m % 64 + 128 ≤ (0xBF : UInt8).toNat := by
    change m % 64 + 128 ≤ 191
    omega
  unfold String.utf8EncodeChar
  generalize c.val.toNat = v at hvalid hc
  dsimp only
  split_ifs with hone htwo hthree
  · rw [List.foldl_cons, step_whole (lead_one (by omega)), List.foldl_nil, hc]
  · have hbits : v / 64 % 32 * 64 + v % 64 = v := by omega
    rw [List.foldl_cons, step_opens (lead_two (by omega) (by omega)), List.foldl_cons,
      step_last (hlow v) (hhigh v), List.foldl_nil, hbits, hc]
  · have hbits : (v / 4096 % 16 * 64 + v / 64 % 64) * 64 + v % 64 = v := by omega
    -- Less than 32 after a zero would be a character of two bytes, 32 or more after 13 a surrogate.
    have hsecond : (if v / 4096 % 16 = 0 then 0xA0 else 0x80 : UInt8).toNat ≤ v / 64 % 64 + 128 ∧
        v / 64 % 64 + 128 ≤ (if v / 4096 % 16 = 13 then 0x9F else 0xBF : UInt8).toNat := by
      rw [apply_ite UInt8.toNat, apply_ite UInt8.toNat]
      simp only [UInt8.reduceToNat]
      constructor <;> split <;> omega
    rw [List.foldl_cons, step_opens (lead_three (by omega)), List.foldl_cons,
      step_further hsecond.1 hsecond.2, List.foldl_cons, step_last (hlow v) (hhigh v), List.foldl_nil,
      hbits, hc]
  · have hbits : ((v / 262144 % 8 * 64 + v / 4096 % 64) * 64 + v / 64 % 64) * 64 + v % 64 = v := by
      omega
    -- Less than 16 after a zero would be a character of three bytes, 16 or more after 4 past the last one.
    have hsecond : (if v / 262144 % 8 = 0 then 0x90 else 0x80 : UInt8).toNat ≤ v / 4096 % 64 + 128 ∧
        v / 4096 % 64 + 128 ≤ (if v / 262144 % 8 = 4 then 0x8F else 0xBF : UInt8).toNat := by
      rw [apply_ite UInt8.toNat, apply_ite UInt8.toNat]
      simp only [UInt8.reduceToNat]
      constructor <;> split <;> omega
    rw [List.foldl_cons, step_opens (lead_four (by omega)), List.foldl_cons,
      step_further hsecond.1 hsecond.2, List.foldl_cons, step_further (hlow (v / 64)) (hhigh (v / 64)),
      List.foldl_cons, step_last (hlow v) (hhigh v), List.foldl_nil, hbits, hc]

/-- Reading the bytes of characters reads the characters after those read before. -/
theorem foldl_step_flatMap (chars read : List Char) :
    (chars.flatMap String.utf8EncodeChar).foldl State.step ⟨none, read⟩ = ⟨none, chars.reverse ++ read⟩ := by
  induction chars generalizing read with
  | nil => rfl
  | cons c chars ih =>
    rw [List.flatMap_cons, List.foldl_append, foldl_step_utf8EncodeChar, ih, List.reverse_cons,
      List.append_assoc, List.singleton_append]

/-- The bytes of a text are those of its characters. -/
theorem toList_toUTF8 (s : String) :
    s.toUTF8.data.toList = s.toList.flatMap String.utf8EncodeChar := by
  rw [String.toUTF8_eq_toByteArray, ← String.utf8Encode_toList, List.utf8Encode,
    List.toList_data_toByteArray]

/-- Their number is the size of the text. -/
theorem length_toUTF8 (s : String) : s.toUTF8.data.toList.length = s.utf8ByteSize := by
  rw [← String.size_toByteArray]
  rfl

/-- A text is read back from its bytes. -/
theorem decode_toUTF8 (s : String) : decode s.toUTF8.data.toList = s.toList := by
  rw [toList_toUTF8, decode, foldl_step_flatMap, State.finish, List.append_nil, List.reverse_reverse]

/-- A byte with a number other than zero is not NUL. -/
theorem zero_ne_ofNat (hpos : 0 < n) (hn : n < 256) : 0 ≠ UInt8.ofNat n := by
  intro hzero
  have hnumber := congrArg UInt8.toNat hzero
  rw [UInt8.toNat_ofNat_of_lt' hn] at hnumber
  exact hpos.ne hnumber

/-- Only the character NUL has a byte that is NUL. -/
theorem zero_notMem_utf8EncodeChar (hc : c ≠ '\x00') : 0 ∉ String.utf8EncodeChar c := by
  have hpos : 0 < c.val.toNat := by
    refine Nat.pos_of_ne_zero fun hzero => hc ?_
    rw [← Char.ofNat_toNat c, Char.toNat, hzero]
  unfold String.utf8EncodeChar
  dsimp only
  split_ifs with hone htwo hthree
  all_goals
    simp only [List.mem_cons, List.not_mem_nil, or_false, not_or]
    and_intros
  all_goals exact zero_ne_ofNat (by omega) (by omega)

/-- The bytes of a text without NUL have none. -/
theorem zero_notMem_toUTF8 {s : String} (h : '\x00' ∉ s.toList) : 0 ∉ s.toUTF8.data.toList := by
  rw [toList_toUTF8, List.mem_flatMap]
  rintro ⟨c, hmem, hzero⟩
  exact zero_notMem_utf8EncodeChar (fun hc => h (hc ▸ hmem)) hzero

end Interlude.Utf8
