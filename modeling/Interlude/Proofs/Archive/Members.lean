import Mathlib
import Interlude.Archive.Zip.Member
import Interlude.Proofs.Firsts
import Interlude.Proofs.Picture.Decoding

/-!
# The members of a zip file

The records of a directory are the members of the file, in their order. A path that comes again makes no
further member: it stays at the place of its first record, and its last record counts. The data of a member
lies behind a header of its own, and whether it can be opened is known before it is looked at.
-/

namespace Interlude.Zip

variable {data : ByteArray} {r s : Record} {records : List Record} {m : Member} {members : List Member}

/-! ### Records with one path -/

/-- The entries of records: each path once, at the place of its first record, with what its last record
tells. -/
structure AreEntries (records entries : List Record) : Prop where
  firsts : AreFirsts (records.map Record.path) (entries.map Record.path)
  mem_iff : ∀ r, r ∈ entries ↔ (records.filter fun s => s.path = r.path).getLast? = some r
  /-- Where no path comes again, the entries are the records. -/
  whole : (records.map Record.path).Nodup → entries = records

/-- Putting in a record changes the paths only if its path is a new one. -/
theorem map_path_put (r : Record) (records : List Record) :
    (put r records).map Record.path =
      if r.path ∈ records.map Record.path then records.map Record.path
      else records.map Record.path ++ [r.path] := by
  induction records with
  | nil => simp [put]
  | cons other records ih =>
    by_cases hother : other.path = r.path
    · simp [put, hother]
    · rw [put, if_neg hother, List.map_cons, ih, List.map_cons]
      have hmem : r.path ∈ other.path :: records.map Record.path ↔ r.path ∈ records.map Record.path := by
        rw [List.mem_cons, or_iff_right fun heq => hother heq.symm]
      simp only [hmem]
      split <;> rfl

/-- A record with a new path is put at the end. -/
theorem put_eq_concat (h : r.path ∉ records.map Record.path) : put r records = records ++ [r] := by
  induction records with
  | nil => rfl
  | cons other records ih =>
    rw [List.map_cons, List.mem_cons, not_or] at h
    rw [put, if_neg fun heq => h.1 heq.symm, ih h.2, List.cons_append]

/-- Where no path comes again, putting in a record leaves those with other paths. -/
theorem mem_put (h : (records.map Record.path).Nodup) :
    s ∈ put r records ↔ s = r ∨ s ∈ records ∧ s.path ≠ r.path := by
  induction records with
  | nil => simp [put]
  | cons other records ih =>
    rw [List.map_cons, List.nodup_cons] at h
    by_cases hother : other.path = r.path
    · -- The paths of the others are not that of the one that is replaced.
      have hothers : s ∈ records → s.path ≠ r.path := fun hs heq =>
        h.1 (hother.trans heq.symm ▸ List.mem_map_of_mem hs)
      rw [put, if_pos hother, List.mem_cons, List.mem_cons]
      grind
    · rw [put, if_neg hother, List.mem_cons, ih h.2, List.mem_cons]
      grind

/-- One more record is put among those that are united. -/
theorem unite_concat (records : List Record) (r : Record) :
    unite (records ++ [r]) = put r (unite records) := by
  rw [unite, List.foldl_append, List.foldl_cons, List.foldl_nil, unite]

/-- The paths of united records are their paths without repetitions. -/
theorem map_path_unite (records : List Record) :
    (unite records).map Record.path = (records.map Record.path).eraseDups := by
  induction records using List.reverseRecOn with
  | nil => rfl
  | append_singleton records r ih =>
    rw [unite_concat, map_path_put, ih, List.map_append, List.map_singleton, eraseDups_concat]
    simp only [List.mem_eraseDups]

/-- No path comes again in united records. -/
theorem nodup_map_path_unite (records : List Record) : ((unite records).map Record.path).Nodup := by
  rw [map_path_unite]
  exact (areFirsts_eraseDups _).nodup

/-- United records are the last ones with their paths. -/
theorem mem_unite_iff :
    r ∈ unite records ↔ (records.filter fun s => s.path = r.path).getLast? = some r := by
  induction records using List.reverseRecOn with
  | nil => simp [unite]
  | append_singleton records last ih =>
    rw [unite_concat, mem_put (nodup_map_path_unite records), ih, List.filter_append, List.filter_singleton]
    by_cases hlast : last.path = r.path
    · simp only [hlast, decide_true, cond_true, List.getLast?_concat, Option.some.injEq]
      grind
    · simp only [hlast, decide_false, cond_false, List.append_nil]
      grind

/-- Where no path comes again, records are united as they are. -/
theorem unite_eq_self (h : (records.map Record.path).Nodup) : unite records = records := by
  induction records using List.reverseRecOn with
  | nil => rfl
  | append_singleton records r ih =>
    rw [List.map_append, List.map_singleton, List.nodup_append_comm, List.singleton_append,
      List.nodup_cons] at h
    rw [unite_concat, ih h.2, put_eq_concat h.1]

/-- Uniting records gives their entries. -/
theorem areEntries_unite (records : List Record) : AreEntries records (unite records) where
  firsts := map_path_unite records ▸ areFirsts_eraseDups _
  mem_iff _ := mem_unite_iff
  whole := unite_eq_self

/-! ### Members and their data -/

/-- There is a header for a member where its record tells, and the data begins behind it. -/
structure Member.LiesIn (m : Member) (data : ByteArray) : Prop where
  inside : m.header + headerSize ≤ data.size
  mark : number data m.header 4 = headerMark
  start_eq : m.start =
    m.header + headerSize + number data (m.header + 26) 2 + number data (m.header + 28) 2

/-- The members of a file are the entries of its directory, each with its data in the file. -/
structure AreMembers (data : ByteArray) (members : List Member) : Prop where
  entries : ∃ records, recordsOf? data = some records ∧ AreEntries records (members.map Member.toRecord)
  lies : ∀ m ∈ members, m.LiesIn data

/-- A record leads to the member that has its header where the record tells. -/
theorem member?_eq_some_iff : r.member? data = some m ↔ m.toRecord = r ∧ m.LiesIn data := by
  simp only [Record.member?, Option.bind_eq_bind, Option.bind_eq_some_iff, Option.guard_eq_some',
    Option.pure_def, Option.some.injEq, exists_const]
  constructor
  · rintro ⟨⟨hinside, hmark⟩, rfl⟩
    exact ⟨rfl, hinside, hmark, rfl⟩
  · rintro ⟨rfl, hinside, hmark, hstart⟩
    exact ⟨⟨hinside, hmark⟩, by rw [← hstart]⟩

/-- The members that are found are those of the file. -/
theorem areMembers_of_membersOf? (h : membersOf? data = some members) : AreMembers data members := by
  obtain ⟨records, hrecords, hmembers⟩ := Option.bind_eq_some_iff.mp h
  have hall : List.Forall₂ (fun m r => m.LiesIn data ∧ m.toRecord = r) members (unite records) :=
    (Picture.mapM_eq_some_iff.mp hmembers).flip.imp fun m r hm => (member?_eq_some_iff.mp hm).symm
  obtain ⟨hlies, hrecord⟩ := (List.forall₂_and_left members (unite records)).mp hall
  have hentries : members.map Member.toRecord = unite records :=
    List.forall₂_eq_eq_eq ▸ List.forall₂_map_left_iff.mpr hrecord
  exact ⟨⟨records, hrecords, hentries ▸ areEntries_unite records⟩, hlies⟩

namespace Member

/-- A member can be opened: it lies under no cipher, and its data is stored or deflated. -/
def Opens (m : Member) : Prop :=
  m.encrypted = false ∧ m.ciphered = false ∧ (m.method = stored ∨ m.method = deflated)

/-- The data of a member as it lies in the file, as far as the file goes. -/
def packed (m : Member) (data : ByteArray) : ByteArray :=
  data.extract m.start (min (m.start + m.packedSize) data.size)

/-- What the method of a member makes of its data in the file. -/
def Unpacks (m : Member) (data bytes : ByteArray) : Prop :=
  m.method = stored ∧ m.packed data = bytes ∨
    m.method = deflated ∧ ∃ out, inflate? (m.packed data) 0 = some out ∧ out.bytes = bytes

/-- The data of a member is what is unpacked, if it has the checksum that the record tells. -/
def Holds (m : Member) (data bytes : ByteArray) : Prop :=
  m.Unpacks data bytes ∧ Bytes.crc32 bytes.data.toList = m.crc

/-- What reading a member should give: its data, the fault of a file if it cannot be opened, and a fault
with its path if it can be opened and has no data. -/
structure Reads (m : Member) (data : ByteArray) (result : Except ArchiveError ByteArray) : Prop where
  ok_iff : ∀ bytes, result = .ok bytes ↔ m.Opens ∧ m.Holds data bytes
  closed_iff : result = .error .zip ↔ ¬ m.Opens
  broken_iff : (∃ fault, result = .error (.member m.path fault)) ↔
    m.Opens ∧ ∀ bytes, ¬ m.Holds data bytes

variable {bytes bytes' : ByteArray}

/-- Whether a member can be opened is found out. -/
theorem canOpen_iff : m.canOpen = true ↔ m.Opens := by
  simp [canOpen, Opens, and_assoc]

/-- No data is both stored and deflated. -/
theorem deflated_ne_stored : deflated ≠ stored := by
  decide

/-- A member that cannot be opened is a fault of the file. -/
theorem unpacked_of_not_opens (h : ¬ m.Opens) : m.unpacked data = .error .zip := by
  unfold unpacked
  split
  · rfl
  · rename_i hplain
    obtain ⟨hencrypted, hciphered⟩ := Bool.or_eq_false_iff.mp (Bool.eq_false_iff.mpr hplain)
    rw [if_neg fun hstored => h ⟨hencrypted, hciphered, .inl hstored⟩,
      if_neg fun hdeflated => h ⟨hencrypted, hciphered, .inr hdeflated⟩]

/-- Of a member that can be opened, its data is unpacked, or its stream is broken. -/
theorem Opens.unpacked_eq (h : m.Opens) (data : ByteArray) :
    (∃ bytes, m.Unpacks data bytes ∧ m.unpacked data = .ok bytes) ∨
      (∀ bytes, ¬ m.Unpacks data bytes) ∧ m.unpacked data = .error (.member m.path .corrupt) := by
  obtain ⟨hencrypted, hciphered, hstored | hdeflated⟩ := h
  · refine .inl ⟨m.packed data, .inl ⟨hstored, rfl⟩, ?_⟩
    simp [unpacked, packed, hencrypted, hciphered, hstored]
  · cases hout : inflate? (m.packed data) 0 with
    | some out =>
      refine .inl ⟨out.bytes, .inr ⟨hdeflated, out, hout, rfl⟩, ?_⟩
      rw [packed] at hout
      simp [unpacked, hencrypted, hciphered, hdeflated, deflated_ne_stored, hout]
    | none =>
      refine .inr ⟨fun bytes hbytes => ?_, ?_⟩
      · rcases hbytes with ⟨hstored, -⟩ | ⟨-, out, hfound, -⟩
        · exact deflated_ne_stored (hdeflated.symm.trans hstored)
        · rw [hout] at hfound
          contradiction
      · rw [packed] at hout
        simp [unpacked, hencrypted, hciphered, hdeflated, deflated_ne_stored, hout]

/-- A member has one data at most. -/
theorem Unpacks.unique (h : m.Unpacks data bytes) (h' : m.Unpacks data bytes') : bytes = bytes' := by
  rcases h with ⟨hstored, rfl⟩ | ⟨hdeflated, out, hout, rfl⟩
  · rcases h' with ⟨-, rfl⟩ | ⟨hdeflated, -⟩
    · rfl
    · exact absurd (hdeflated.symm.trans hstored) deflated_ne_stored
  · rcases h' with ⟨hstored, -⟩ | ⟨-, out', hout', rfl⟩
    · exact absurd (hdeflated.symm.trans hstored) deflated_ne_stored
    · rw [Option.some.inj (hout.symm.trans hout')]

/-- The ways in which the reading of a member can end. -/
theorem bytes_cases (m : Member) (data : ByteArray) :
    ¬ m.Opens ∧ m.bytes data = .error .zip ∨
      m.Opens ∧ ((∃ bytes, m.Holds data bytes ∧ m.bytes data = .ok bytes) ∨
        (∀ bytes, ¬ m.Holds data bytes) ∧ ∃ fault, m.bytes data = .error (.member m.path fault)) := by
  unfold Member.bytes
  by_cases hopens : m.Opens
  · refine .inr ⟨hopens, ?_⟩
    rcases hopens.unpacked_eq data with ⟨bytes, hunpacks, hunpacked⟩ | ⟨hnone, hunpacked⟩
    · rw [hunpacked]
      by_cases hcrc : Bytes.crc32 bytes.data.toList = m.crc
      · exact .inl ⟨bytes, ⟨hunpacks, hcrc⟩, if_neg (not_not_intro hcrc)⟩
      · refine .inr ⟨fun other hother => hcrc ?_, .checksum, if_pos hcrc⟩
        rw [hunpacks.unique hother.1]
        exact hother.2
    · rw [hunpacked]
      exact .inr ⟨fun bytes hbytes => hnone bytes hbytes.1, .corrupt, rfl⟩
  · rw [unpacked_of_not_opens hopens]
    exact .inl ⟨hopens, rfl⟩

/-- Reading a member gives what it should. -/
theorem reads_bytes (m : Member) (data : ByteArray) : m.Reads data (m.bytes data) := by
  rcases m.bytes_cases data with ⟨hclosed, hread⟩ | ⟨hopens, ⟨bytes, hbytes, hread⟩ | ⟨hnone, fault, hread⟩⟩
  · constructor <;> simp [hread, hclosed]
  · have hunique (other : ByteArray) : m.Holds data other ↔ bytes = other :=
      ⟨fun hother => hbytes.1.unique hother.1, fun heq => heq ▸ hbytes⟩
    constructor <;> simp [hread, hopens, hunique]
  · constructor <;> simp [hread, hopens, hnone]

end Member

end Interlude.Zip
