import Mathlib
import Interlude.Archive.Wad
import Interlude.Proofs.Picture.Decoding

/-!
# When a WAD is opened

Opening a WAD looks at its header and at where its directory lies, and at nothing else. The checks stand
in a list in the order in which they are made, and the first one that finds a fault decides: without one,
the file is opened and its entries are the records of the directory. A lump is found exactly if the bytes
that its entry tells of lie in the file.
-/

namespace Interlude.Wad

/-! ### The bytes of a file -/

/-- Some bytes of a file, from a position on. -/
def bytesAt (data : ByteArray) (position size : Nat) : List UInt8 :=
  (data.data.toList.drop position).take size

/-- A number of four bytes with a sign: the upper half of what four bytes can hold is below zero. -/
def numberAt (data : ByteArray) (position : Nat) : Int :=
  let n := Bytes.ofLE (bytesAt data position 4)
  if n < 2 ^ 31 then n else n - 2 ^ 32

/-- A piece of a file holds the bytes of the file at its place. -/
@[simp] theorem toList_slice (data : ByteArray) (position size : Nat) :
    (slice data position size).data.toList = bytesAt data position size := by
  simp [slice, bytesAt, ByteArray.data_extract, List.extract_eq_take_drop]

/-- The start of a piece is a piece. -/
theorem take_bytesAt {data : ByteArray} {position size n : Nat} (h : n ≤ size) :
    (bytesAt data position size).take n = bytesAt data position n := by
  rw [bytesAt, List.take_take, Nat.min_eq_left h, bytesAt]

/-- The rest of a piece is a piece. -/
theorem drop_bytesAt (data : ByteArray) (position size n : Nat) :
    (bytesAt data position size).drop n = bytesAt data (position + n) (size - n) := by
  rw [bytesAt, List.drop_take, List.drop_drop, bytesAt]

/-- Four bytes hold a number of 32 bits. -/
theorem ofLE_bytesAt_lt (data : ByteArray) (position : Nat) :
    Bytes.ofLE (bytesAt data position 4) < 2 ^ 32 := by
  have hlt := Bytes.ofLE_lt (bytesAt data position 4)
  have hlength : (bytesAt data position 4).length ≤ 4 := List.length_take_le _ _
  refine hlt.trans_le ?_
  interval_cases (bytesAt data position 4).length <;> decide

/-! ### The header -/

/-- The number of four bytes as it is read. -/
theorem toInt_ofLE (data : ByteArray) (position : Nat) :
    (UInt32.ofNat (Bytes.ofLE (bytesAt data position 4))).toInt32.toInt = numberAt data position := by
  rw [Picture.toInt_toInt32, UInt32.toNat_ofNat_of_lt' (ofLE_bytesAt_lt data position), numberAt]

/-- A number of the header is refused if it is negative. -/
theorem headerNumber_eq (data : ByteArray) (field : HeaderField) (position : Nat) :
    headerNumber data field position =
      if numberAt data position < 0 then .error (.negative field (numberAt data position))
      else .ok (numberAt data position).toNat := by
  rw [headerNumber, toList_slice, toInt_ofLE]

/-- What can be wrong with a file, in the order in which it is looked for: whether it is, and the error. -/
def faults (data : ByteArray) : List (Bool × ArchiveError) :=
  let magic := bytesAt data 0 4
  let count := numberAt data 4
  let offset := numberAt data 8
  [(data.size < headerSize, .shortHeader),
    (!magics.contains magic, .magic magic),
    (count < 0, .negative .lumpCount count),
    (offset < 0, .negative .directoryOffset offset),
    (data.size < offset + recordSize * count,
      .directoryOutside count.toNat offset.toNat data.size)]

/-- The first fault of a file. -/
def firstFault? (data : ByteArray) : Option ArchiveError :=
  ((faults data).find? (·.1)).map (·.2)

/-- The entries that the header tells of. -/
def listed (data : ByteArray) : List LumpEntry :=
  directory data (numberAt data 4).toNat (numberAt data 8).toNat

/-- The checks, one after the other. -/
theorem firstFault?_eq (data : ByteArray) : firstFault? data =
    if data.size < headerSize then some .shortHeader
    else if bytesAt data 0 4 ∉ magics then some (.magic (bytesAt data 0 4))
    else if numberAt data 4 < 0 then some (.negative .lumpCount (numberAt data 4))
    else if numberAt data 8 < 0 then some (.negative .directoryOffset (numberAt data 8))
    else if data.size < numberAt data 8 + recordSize * numberAt data 4 then
      some (.directoryOutside (numberAt data 4).toNat (numberAt data 8).toNat data.size)
    else none := by
  simp only [firstFault?, faults, List.find?_cons, List.find?_nil]
  repeat' split
  all_goals simp_all

/-- A file is opened unless it has a fault. -/
theorem ofBytes_eq (data : ByteArray) :
    ofBytes data = match firstFault? data with
      | some e => .error e
      | none => .ok ⟨data, listed data⟩ := by
  rw [firstFault?_eq]
  unfold ofBytes
  simp only [headerNumber_eq, toList_slice]
  split
  · rfl
  split
  · rfl
  split
  · rfl
  split
  · rfl
  -- The numbers are not negative, so that they may as well be added without a sign.
  have hend : data.size < (numberAt data 8).toNat + (numberAt data 4).toNat * recordSize ↔
      data.size < numberAt data 8 + recordSize * numberAt data 4 := by
    rw [recordSize]
    omega
  change (if data.size < (numberAt data 8).toNat + (numberAt data 4).toNat * recordSize then _ else _) = _
  simp only [hend]
  split
  · rfl
  · rfl

/-- A file that can be opened: it has a header that starts as it should, with numbers that are not
negative, and the directory that they tell of lies in it. -/
structure IsContainer (data : ByteArray) : Prop where
  header : 12 ≤ data.size
  magic : bytesAt data 0 4 ∈ magics
  count_nonneg : 0 ≤ numberAt data 4
  offset_nonneg : 0 ≤ numberAt data 8
  directory_le : numberAt data 8 + 16 * numberAt data 4 ≤ data.size

/-- Such files have no fault. -/
theorem firstFault?_eq_none_iff {data : ByteArray} : firstFault? data = none ↔ IsContainer data := by
  have hfaults : firstFault? data = none ↔ ∀ fault ∈ faults data, fault.1 = false := by
    simp [firstFault?, List.find?_eq_none]
  rw [hfaults]
  simp only [faults, List.forall_mem_cons, decide_eq_false_iff_not, not_lt, Bool.not_eq_false',
    List.contains_iff_mem]
  constructor
  · rintro ⟨hheader, hmagic, hcount, hoffset, hdirectory, -⟩
    exact ⟨hheader, hmagic, hcount, hoffset, hdirectory⟩
  · rintro ⟨hheader, hmagic, hcount, hoffset, hdirectory⟩
    exact ⟨hheader, hmagic, hcount, hoffset, hdirectory, List.forall_mem_nil _⟩

/-- A file is refused with its first fault. -/
theorem ofBytes_eq_error_iff {data : ByteArray} {e : ArchiveError} :
    ofBytes data = .error e ↔ firstFault? data = some e := by
  rw [ofBytes_eq]
  cases firstFault? data with
  | none => simp
  | some found => simp

/-- Exactly the files without a fault are opened, with the entries that the header tells of. -/
theorem ofBytes_eq_ok_iff {data : ByteArray} {w : Wad} :
    ofBytes data = .ok w ↔ IsContainer data ∧ w = ⟨data, listed data⟩ := by
  rw [← firstFault?_eq_none_iff, ofBytes_eq]
  cases firstFault? data with
  | none => simp [eq_comm]
  | some found => simp

/-! ### The directory -/

/-- The entry that sixteen bytes of a file tell of: position, size and name. -/
def entryAt (data : ByteArray) (place : Nat) : LumpEntry where
  name := Lump.nameOfBytes (bytesAt data (place + 8) 8)
  position := .ofNat (Bytes.ofLE (bytesAt data place 4))
  size := .ofNat (Bytes.ofLE (bytesAt data (place + 4) 4))

/-- Position and size have no sign. -/
theorem toNat_entryAt (data : ByteArray) (place : Nat) :
    (entryAt data place).position.toNat = Bytes.ofLE (bytesAt data place 4) ∧
      (entryAt data place).size.toNat = Bytes.ofLE (bytesAt data (place + 4) 4) :=
  ⟨UInt32.toNat_ofNat_of_lt' (ofLE_bytesAt_lt data place),
    UInt32.toNat_ofNat_of_lt' (ofLE_bytesAt_lt data (place + 4))⟩

/-- A record is decoded to the entry that it tells of. -/
theorem entryOfRecord_slice (data : ByteArray) (place : Nat) :
    entryOfRecord (slice data place recordSize).data.toList = entryAt data place := by
  rw [toList_slice, entryOfRecord, drop_bytesAt, drop_bytesAt, take_bytesAt (by decide),
    take_bytesAt (by decide)]
  rfl

/-- The directory holds the entries of its records. -/
theorem directory_eq (data : ByteArray) (count offset : Nat) :
    directory data count offset =
      (List.range count).map fun i => entryAt data (offset + i * recordSize) :=
  List.map_congr_left fun i _ => entryOfRecord_slice data (offset + i * recordSize)

/-- A directory is its first entry and the directory of the others. -/
theorem directory_succ (data : ByteArray) (count offset : Nat) :
    directory data (count + 1) offset =
      entryAt data offset :: directory data count (offset + recordSize) := by
  have hplace (i : Nat) : offset + (i + 1) * recordSize = offset + recordSize + i * recordSize := by ring
  rw [directory_eq, directory_eq, List.range_succ_eq_map, List.map_cons, List.map_map, Nat.zero_mul]
  refine congrArg _ (List.map_congr_left fun i _ => ?_)
  rw [Function.comp_apply, Nat.succ_eq_add_one, hplace]

/-- There are as many entries as the header tells. -/
@[simp] theorem length_listed (data : ByteArray) : (listed data).length = (numberAt data 4).toNat := by
  simp [listed, directory_eq]

/-- Each of them is that of its record. -/
theorem getElem?_listed {data : ByteArray} {i : Nat} (h : i < (listed data).length) :
    (listed data)[i]? = some (entryAt data ((numberAt data 8).toNat + i * recordSize)) := by
  rw [length_listed] at h
  simp [listed, directory_eq, h]

/-! ### The lumps -/

/-- A lump is found exactly if its bytes lie in the file. -/
theorem lump_eq {w : Wad} {i : Nat} {e : LumpEntry} (h : w.entries[i]? = some e) :
    w.lump i = if e.position.toNat + e.size.toNat ≤ w.data.size then
      .ok (slice w.data e.position.toNat e.size.toNat) else .error (.lumpOutside i e.name) := by
  rw [lump, h]
  dsimp only
  split
  · rename_i houtside
    rw [if_neg (Nat.not_le.mpr houtside)]
  · rename_i hinside
    rw [if_pos (Nat.not_lt.mp hinside)]

/-- There is no lump past the end of the directory. -/
theorem lump_of_length_le {w : Wad} {i : Nat} (h : w.entries.length ≤ i) :
    w.lump i = .error (.noLump i) := by
  rw [lump, List.getElem?_eq_none h]

end Interlude.Wad
