import Mathlib
import Interlude.Proofs.Archive.Opening

/-!
# Opening a WAD with a cursor

A WAD can be opened in one go, from its first byte to the last one of its directory: a cursor reads the
numbers of the header, is moved to the directory, and reads it record by record. Such a reader has one more
way to fail, at a record that it cannot read. It never does: the end of the directory is compared with the
length of the file before the first record is read, and the numbers of a header are so small that this end
is a number that a machine word holds. So the reader opens what is opened by looking at the places of the
file, and these are exactly the well-formed containers.
-/

namespace Interlude.Wad

/-! ### Reading from start to end -/

/-- Why a WAD cannot be opened by reading it from its start to the end of its directory. -/
inductive OpenError where
  /-- The header is refused, or the place of the directory. -/
  | refused (e : ArchiveError)
  /-- A record of the directory cannot be read. -/
  | badEntry (index : Nat) (cause : ReadError)
  deriving DecidableEq, Repr

/-- The next number of the header, which must not be negative. -/
def readHeaderNumber (field : HeaderField) : StateT Cursor (Except OpenError) Nat := fun c =>
  match Cursor.i32 c with
  | .error _ => .error (.refused .shortHeader)
  | .ok (value, c') =>
    if value < 0 then .error (.refused (.negative field value.toInt))
    else .ok (value.toNatClampNeg, c')

/-- The next record of the directory, whose numbers lose their signs. -/
def readEntry : Reading LumpEntry := do
  let position ← Cursor.i32
  let size ← Cursor.i32
  let name ← Lump.readName
  return { name, position := position.toUInt32, size := size.toUInt32 }

/-- The next `count` records of the directory, of which the first one has the number `index`. -/
def readEntries : (count index : Nat) → Cursor → Except OpenError (List LumpEntry)
  | 0, _, _ => .ok []
  | count + 1, index, c =>
    match readEntry c with
    | .error cause => .error (.badEntry index cause)
    | .ok (e, c') => (e :: ·) <$> readEntries count (index + 1) c'

/-- A number, if a machine word can hold it. -/
def word? (n : Nat) : Option Nat :=
  if n < 2 ^ 64 then some n else none

/-- Where a directory ends, if that is a number that a machine word can hold. -/
def directoryEnd? (count offset : Nat) : Option Nat := do
  word? ((← word? (count * recordSize)) + offset)

/-- Opens a WAD by reading it from its start to the end of its directory. -/
def read (data : ByteArray) : Except OpenError Wad := do
  if data.size < headerSize then throw (.refused .shortHeader)
  let magic := bytesAt data 0 4
  if !magics.contains magic then throw (.refused (.magic magic))
  let (count, c) ← readHeaderNumber .lumpCount ⟨data, 4⟩
  let (offset, c) ← readHeaderNumber .directoryOffset c
  if (directoryEnd? count offset).all (data.size < ·) then
    throw (.refused (.directoryOutside count offset data.size))
  let entries ← readEntries count 0 { c with pos := offset }
  return ⟨data, entries⟩

/-! ### Reading what lies in the file -/

variable {data : ByteArray}

/-- A number of four bytes that lie in the file is read. -/
theorem i32_eq_ok {position : Nat} (h : position + 4 ≤ data.size) :
    Cursor.i32 ⟨data, position⟩ = .ok
      ((UInt32.ofNat (Bytes.ofLE (bytesAt data position 4))).toInt32, ⟨data, position + 4⟩) :=
  Cursor.i32_eq_ok_iff.mpr ⟨h, rfl, rfl⟩

/-- A number of the header is read as it is looked up. -/
theorem readHeaderNumber_eq (field : HeaderField) {position : Nat} (h : position + 4 ≤ data.size) :
    readHeaderNumber field ⟨data, position⟩ =
      if numberAt data position < 0 then .error (.refused (.negative field (numberAt data position)))
      else .ok ((numberAt data position).toNat, ⟨data, position + 4⟩) := by
  rw [readHeaderNumber, i32_eq_ok h]
  simp only [Int32.lt_iff_toInt_lt, ← Int32.toNat_toInt, toInt_ofLE]
  rfl

/-- A name that lies in the file is read. -/
theorem readName_eq_ok {position : Nat} (h : position + Lump.nameWidth ≤ data.size) :
    Lump.readName ⟨data, position⟩ =
      .ok (Lump.nameOfBytes (bytesAt data position 8), ⟨data, position + 8⟩) := by
  refine Cursor.bind_eq_ok_iff.mpr ⟨_, _, Cursor.take_eq_ok_iff.mpr ⟨h, rfl, rfl⟩, ?_⟩
  exact Cursor.pure_eq_ok_iff.mpr ⟨rfl, rfl⟩

/-- A record that lies in the file is read. -/
theorem readEntry_eq_ok {place : Nat} (h : place + recordSize ≤ data.size) :
    readEntry ⟨data, place⟩ = .ok (entryAt data place, ⟨data, place + recordSize⟩) := by
  rw [recordSize] at h
  refine Cursor.bind_eq_ok_iff.mpr ⟨_, _, i32_eq_ok (by omega), ?_⟩
  refine Cursor.bind_eq_ok_iff.mpr ⟨_, _, i32_eq_ok (by omega), ?_⟩
  refine Cursor.bind_eq_ok_iff.mpr ⟨_, _, readName_eq_ok (by rw [Lump.nameWidth]; omega), ?_⟩
  rw [UInt32.toUInt32_toInt32, UInt32.toUInt32_toInt32]
  exact Cursor.pure_eq_ok_iff.mpr ⟨rfl, rfl⟩

/-- So are the records of a directory that lies in the file. -/
theorem readEntries_eq_ok {count offset : Nat} (index : Nat)
    (h : offset + count * recordSize ≤ data.size) :
    readEntries count index ⟨data, offset⟩ = .ok (directory data count offset) := by
  induction count generalizing index offset with
  | zero => rfl
  | succ count ih =>
    have hsplit : (count + 1) * recordSize = recordSize + count * recordSize := by ring
    rw [readEntries, readEntry_eq_ok (by omega)]
    dsimp only
    rw [ih (index + 1) (by omega), directory_succ]
    rfl

/-- A number of four bytes takes at most 31 bits beside its sign. -/
theorem toNat_numberAt_lt (data : ByteArray) (position : Nat) :
    (numberAt data position).toNat < 2 ^ 31 := by
  have hlt := ofLE_bytesAt_lt data position
  rw [numberAt]
  split <;> omega

/-- The end of a directory is a number that a machine word holds, for the numbers of a header do not take more
than 31 bits. -/
theorem directoryEnd?_eq {count offset : Nat} (hcount : count < 2 ^ 31) (hoffset : offset < 2 ^ 31) :
    directoryEnd? count offset = some (count * recordSize + offset) := by
  have hsize : count * recordSize < 2 ^ 64 := by
    rw [recordSize]
    omega
  have hend : count * recordSize + offset < 2 ^ 64 := by
    rw [recordSize] at hsize ⊢
    omega
  rw [directoryEnd?, word?, if_pos hsize, Option.bind_eq_bind, Option.bind_some, word?, if_pos hend]

/-- So the directory is found outside the file exactly if its end, as a number without bound, is. -/
theorem directoryEnd?_outside_iff (hcount : 0 ≤ numberAt data 4) (hoffset : 0 ≤ numberAt data 8) :
    (directoryEnd? (numberAt data 4).toNat (numberAt data 8).toNat).all (data.size < ·) = true ↔
      data.size < numberAt data 8 + recordSize * numberAt data 4 := by
  rw [directoryEnd?_eq (toNat_numberAt_lt data 4) (toNat_numberAt_lt data 8), Option.all_some,
    decide_eq_true_eq, recordSize]
  omega

/-- Reading from start to end opens what is opened by looking at the places of the file. -/
theorem read_eq (data : ByteArray) : read data = (ofBytes data).mapError .refused := by
  rw [ofBytes_eq, firstFault?_eq]
  unfold read
  split
  · rfl
  rename_i hheader
  have hinside : 12 ≤ data.size := not_lt.mp hheader
  have hmagic : (!magics.contains (bytesAt data 0 4)) = true ↔ bytesAt data 0 4 ∉ magics := by
    rw [Bool.not_eq_true', ← Bool.not_eq_true, List.contains_iff_mem]
  simp only [hmagic]
  rw [readHeaderNumber_eq _ (by omega)]
  split
  · rfl
  split
  · rfl
  rename_i hcount
  change (readHeaderNumber .directoryOffset ⟨data, 8⟩ >>= _) = _
  rw [readHeaderNumber_eq _ (by omega)]
  split
  · rfl
  rename_i hoffset
  have hend := directoryEnd?_outside_iff (not_lt.mp hcount) (not_lt.mp hoffset)
  change (if (directoryEnd? (numberAt data 4).toNat (numberAt data 8).toNat).all (data.size < ·)
    then _ else _) = _
  simp only [hend]
  split
  · rfl
  rename_i hdirectory
  rw [readEntries_eq_ok 0 (by rw [recordSize] at hdirectory ⊢; omega)]
  rfl

/-- No record of a directory is found broken. -/
theorem read_ne_badEntry (data : ByteArray) (index : Nat) (cause : ReadError) :
    read data ≠ .error (.badEntry index cause) := by
  rw [read_eq]
  intro hbad
  cases hopened : ofBytes data with
  | error e =>
    rw [hopened] at hbad
    cases hbad
  | ok w =>
    rw [hopened] at hbad
    cases hbad

/-! ### What is opened -/

/-- A lump whose entry is `e` is the bytes that it tells of if they lie in the file. -/
theorem map_toList_lump {w : Wad} {i : Nat} {e : LumpEntry} (h : w.entries[i]? = some e) :
    (fun bytes => bytes.data.toList) <$> w.lump i =
      if e.position.toNat + e.size.toNat ≤ w.data.size then
        .ok (bytesAt w.data e.position.toNat e.size.toNat)
      else .error (.lumpOutside i e.name) := by
  rw [lump_eq h]
  split
  · rw [← toList_slice]
    rfl
  · rfl

/-- Exactly the well-formed containers are opened. Any other file is refused with the first fault that it has,
and no record of a directory is ever found broken. What is opened has as many entries as the header tells,
each decoded from its sixteen bytes; a lump is the bytes that its entry tells of, without signs, if they lie
in the file. -/
theorem ofBytes_opens_containers (data : ByteArray) :
    ((∃ w, ofBytes data = .ok w) ↔ IsContainer data) ∧
    (∀ e, ofBytes data = .error e ↔ firstFault? data = some e) ∧
    (read data = (ofBytes data).mapError .refused ∧
      ∀ index cause, read data ≠ .error (.badEntry index cause)) ∧
    ∀ w, ofBytes data = .ok w →
      w.entries.length = numberAt data 4 ∧
      (∀ i < w.entries.length, ∃ e, w.entries[i]? = some e ∧
        let place := (numberAt data 8).toNat + 16 * i
        e.position.toNat = Bytes.ofLE (bytesAt data place 4) ∧
        e.size.toNat = Bytes.ofLE (bytesAt data (place + 4) 4) ∧
        e.name = Lump.nameOfBytes (bytesAt data (place + 8) 8) ∧
        (fun bytes => bytes.data.toList) <$> w.lump i =
          if e.position.toNat + e.size.toNat ≤ data.size then
            .ok (bytesAt data e.position.toNat e.size.toNat)
          else .error (.lumpOutside i e.name)) ∧
      ∀ i, w.entries.length ≤ i → w.lump i = .error (.noLump i) := by
  refine ⟨?_, fun e => ofBytes_eq_error_iff, ⟨read_eq data, read_ne_badEntry data⟩, fun w hw => ?_⟩
  · constructor
    · rintro ⟨w, hw⟩
      exact (ofBytes_eq_ok_iff.mp hw).1
    · exact fun h => ⟨_, ofBytes_eq_ok_iff.mpr ⟨h, rfl⟩⟩
  · obtain ⟨hcontainer, rfl⟩ := ofBytes_eq_ok_iff.mp hw
    refine ⟨?_, fun i hi => ?_, fun i => lump_of_length_le⟩
    · rw [length_listed, Int.toNat_of_nonneg hcontainer.count_nonneg]
    · have hentry := getElem?_listed hi
      obtain ⟨hposition, hsize⟩ := toNat_entryAt data ((numberAt data 8).toNat + i * recordSize)
      rw [recordSize, Nat.mul_comm i] at hentry hposition hsize
      exact ⟨_, hentry, hposition, hsize, rfl, map_toList_lump hentry⟩

/-- A file of two lumps, of which the second one is said to lie before the start of the file. -/
theorem ofBytes_opens_containers_negative_position :
    let data : ByteArray := ⟨#[80, 87, 65, 68, 2, 0, 0, 0, 14, 0, 0, 0, 7, 8,
      12, 0, 0, 0, 2, 0, 0, 0, 65, 0, 66, 0, 0, 0, 0, 0,
      255, 255, 255, 255, 1, 0, 0, 0, 67, 32, 0, 0, 0, 0, 0, 0]⟩
    let w : Wad := ⟨data, [⟨"A", 12, 2⟩, ⟨"C", 4294967295, 1⟩]⟩
    ofBytes data = .ok w ∧ w.entries.length = numberAt data 4 ∧
      (fun bytes => bytes.data.toList) <$> w.lump 0 = .ok [7, 8] ∧
      (fun bytes => bytes.data.toList) <$> w.lump 1 = .error (.lumpOutside 1 "C") ∧
      w.lump 2 = .error (.noLump 2) := by
  intro data w
  have hlisted : listed data = w.entries := by decide +kernel
  have hcontainer : IsContainer data := ⟨by decide, by decide, by decide, by decide, by decide⟩
  have hopened : ofBytes data = .ok w := ofBytes_eq_ok_iff.mpr ⟨hcontainer, by rw [hlisted]⟩
  obtain ⟨-, -, -, hgives⟩ := ofBytes_opens_containers data
  obtain ⟨hlength, hlumps, hnone⟩ := hgives w hopened
  obtain ⟨first, hfirst, -, -, -, hinside⟩ := hlumps 0 (by decide)
  obtain ⟨second, hsecond, -, -, -, houtside⟩ := hlumps 1 (by decide)
  obtain rfl : _ = first := Option.some.inj hfirst
  obtain rfl : _ = second := Option.some.inj hsecond
  exact ⟨hopened, hlength, hinside, houtside, hnone 2 (by decide)⟩

end Interlude.Wad
