import Mathlib
import Interlude.Archive.Basic
import Interlude.Proofs.Archive.Members
import Interlude.Proofs.Text.Cutting
import Interlude.Proofs.Text.LetterCase

/-!
# The lumps of a PK3

The members of a zip file that are no folders are the lumps of a PK3, in their order, wherever folders stand
between them. What is told of a lump at a place, its record, its folder and its bytes, is all told of the
one member at this place among the files. The bytes are read only if there is room for as many as the
directory tells, however many there are.
-/

namespace Interlude

/-! ### Names and folders -/

namespace Lump

variable {path : String} {folder rest : List Char}

/-- The name of a lump fits into a field of a directory, and it holds no separator of paths or names. -/
theorem nameOfPath_fits (path : String) : (nameOfPath path).length ≤ nameWidth ∧
    '/' ∉ (nameOfPath path).toList ∧ '.' ∉ (nameOfPath path).toList := by
  have hname : (nameOfPath path).toList =
      ((((path.toList.reverse.takeWhile (· ≠ '/')).reverse.takeWhile (· ≠ '.')).take nameWidth).map
        Char.toUpper) := by
    rw [nameOfPath, Text.toList_upper, String.toList_ofList]
  refine ⟨?_, fun hslash => ?_, fun hdot => ?_⟩
  · rw [← String.length_toList, hname, List.length_map]
    exact List.length_take_le _ _
  · rw [hname] at hslash
    have hstem := List.mem_of_mem_take (Text.mem_of_mem_map_toUpper (by decide) hslash)
    have hfile := List.mem_reverse.mp ((List.takeWhile_sublist _).mem hstem)
    simpa using List.mem_takeWhile_imp hfile
  · rw [hname] at hdot
    have hstem := List.mem_of_mem_take (Text.mem_of_mem_map_toUpper (by decide) hdot)
    simpa using List.mem_takeWhile_imp hstem

/-- The topmost folder of a path is what stands before the first slash. -/
theorem folderOfPath?_eq_some (hpath : path.toList = folder ++ '/' :: rest) (hfolder : '/' ∉ folder) :
    folderOfPath? path = some (Text.lower (.ofList folder)) := by
  have htaken : path.toList.takeWhile (· ≠ '/') = folder := by
    rw [hpath]
    refine Text.takeWhile_append_of_stop (fun c hc => ?_) (by simp)
    exact decide_eq_true fun heq => hfolder (heq ▸ hc)
  have hlength : folder.length < path.length := by
    rw [← String.length_toList, hpath]
    simp
  rw [folderOfPath?, htaken]
  exact if_pos hlength

/-- A path without a slash has no folder. -/
theorem folderOfPath?_eq_none (h : '/' ∉ path.toList) : folderOfPath? path = none := by
  have htaken : path.toList.takeWhile (· ≠ '/') = path.toList :=
    List.takeWhile_eq_self_iff.mpr fun c hc => decide_eq_true fun heq => h (heq ▸ hc)
  rw [folderOfPath?, htaken, String.length_toList]
  exact if_neg (Nat.lt_irrefl _)

end Lump

/-! ### Places -/

namespace Pk3

variable {data : ByteArray} {p : Pk3} {i : Nat} {m : Zip.Member} {members : List Zip.Member}

/-- The places of the members that are no folders, in their order. -/
structure ArePlaces (members : List Zip.Member) (places : List Nat) : Prop where
  ordered : places.Pairwise (· < ·)
  mem_iff : ∀ k, k ∈ places ↔ ∃ m, members[k]? = some m ∧ m.isFolder = false

/-- What is told of a lump is told of a member: its name and size, its folder, and its bytes, which go
together with its name. They are read if there is room for as many as the directory tells. -/
structure Shows (p : Pk3) (i : Nat) (m : Zip.Member) (data : ByteArray) : Prop where
  entry : p.entries[i]? = some ⟨Lump.nameOfPath m.path, 0, .ofNat (min m.size 0xFFFFFFFF)⟩
  name : (Lump.nameOfPath m.path).length ≤ 8 ∧ '/' ∉ (Lump.nameOfPath m.path).toList ∧
    '.' ∉ (Lump.nameOfPath m.path).toList
  folder : ∀ folder rest, m.path.toList = folder ++ '/' :: rest → '/' ∉ folder →
    p.folder? i = some (Text.lower (.ofList folder))
  no_folder : '/' ∉ m.path.toList → p.folder? i = none
  bytes : m.size < roomLimit → m.Reads data (p.lump i)
  /-- For as many bytes as the limit there is no room, so that none are read. -/
  no_room : roomLimit ≤ m.size →
    (m.Opens → p.lump i = .error (.noRoom m.path m.size)) ∧ (¬ m.Opens → p.lump i = .error .zip)
  named : (Archive.pk3 p).named i = (Lump.nameOfPath m.path, ·) <$> p.lump i

/-- There is no lump at a place. -/
structure ShowsNothing (p : Pk3) (i : Nat) : Prop where
  entry : p.entries[i]? = none
  folder : p.folder? i = none
  bytes : p.lump i = .error (.noLump i)
  named : (Archive.pk3 p).named i = .error (.noLump i)

/-- With room for the bytes of a lump, they are those of the member. -/
theorem lump_eq_bytes (h : p.files[i]? = some m) (hsize : m.size < roomLimit) : p.lump i = m.bytes p.data := by
  rw [lump, h]
  refine if_neg ?_
  rw [Bool.and_eq_true, not_and, decide_eq_true_eq]
  exact fun _ => Nat.not_le.mpr hsize

/-- Without room for the bytes of a lump, this is its fault if it can be opened. -/
theorem lump_eq_error (h : p.files[i]? = some m) (hsize : roomLimit ≤ m.size) :
    (m.Opens → p.lump i = .error (.noRoom m.path m.size)) ∧ (¬ m.Opens → p.lump i = .error .zip) := by
  rw [lump, h]
  refine ⟨fun hopens => if_pos ?_, fun hclosed => (if_neg ?_).trans ?_⟩
  · rw [Zip.Member.canOpen_iff.mpr hopens, Bool.true_and, decide_eq_true hsize]
  · rw [Bool.and_eq_true, Zip.Member.canOpen_iff]
    exact fun hboth => hclosed hboth.1
  · exact (m.reads_bytes p.data).closed_iff.mpr hclosed

/-- A lump shows the file that it is. -/
theorem shows_of_getElem? (h : p.files[i]? = some m) : p.Shows i m p.data := by
  have hentry : p.entries[i]? = some ⟨Lump.nameOfPath m.path, 0, .ofNat (min m.size 0xFFFFFFFF)⟩ := by
    rw [entries, List.getElem?_map, h, Option.map_some]
  have hfolder : p.folder? i = Lump.folderOfPath? m.path := by
    rw [folder?, h, Option.bind_eq_bind, Option.bind_some]
  refine ⟨hentry, Lump.nameOfPath_fits m.path, fun folder rest hpath hslash => ?_, fun hslash => ?_,
    fun hsize => ?_, lump_eq_error h, ?_⟩
  · rw [hfolder, Lump.folderOfPath?_eq_some hpath hslash]
  · rw [hfolder, Lump.folderOfPath?_eq_none hslash]
  · rw [lump_eq_bytes h hsize]
    exact m.reads_bytes p.data
  · rw [Archive.named, Archive.entries, hentry, Archive.lump]

/-- There is no lump behind the files. -/
theorem showsNothing_of_length_le (h : p.files.length ≤ i) : p.ShowsNothing i := by
  have hnone : p.files[i]? = none := List.getElem?_eq_none h
  have hentry : p.entries[i]? = none := by
    rw [entries, List.getElem?_map, hnone, Option.map_none]
  refine ⟨hentry, ?_, ?_, ?_⟩
  · rw [folder?, hnone, Option.bind_eq_bind, Option.bind_none]
  · rw [lump, hnone]
  · rw [Archive.named, Archive.entries, hentry]

/-- The places at which members are found that are no folders are the places of these. -/
theorem arePlaces_findIdxs (members : List Zip.Member) :
    ArePlaces members (members.findIdxs fun m => !m.isFolder) where
  ordered := List.pairwise_findIdxs
  mem_iff k := by
    simp [List.getElem?_eq_some_iff]

/-- A file is the member at its place. -/
theorem getElem?_filter_eq {k : Nat} (hk : (members.findIdxs fun m => !m.isFolder)[i]? = some k) :
    (members.filter fun m => !m.isFolder)[i]? = members[k]? := by
  obtain ⟨hi, rfl⟩ := List.getElem?_eq_some_iff.mp hk
  have hlength : i < (members.filter fun m => !m.isFolder).length := by
    rwa [← List.countP_eq_length_filter, ← List.length_findIdxs]
  rw [List.getElem?_eq_getElem hlength, List.getElem_filter_eq_getElem_getElem_findIdxs hlength,
    List.getElem?_eq_getElem]

/-- A PK3 is opened if the members of the zip file are found, and it keeps those that are no folders. -/
theorem ofBytes_eq_ok_iff : ofBytes data = .ok p ↔
    ∃ members, Zip.membersOf? data = some members ∧
      (⟨data, members.filter fun m => !m.isFolder⟩ : Pk3) = p := by
  unfold ofBytes
  cases Zip.membersOf? data with
  | none => simp
  | some members => simp

/-- The lumps of a PK3 are the members of the zip file that are no folders, in their order: as many records as
there are such members, each lump tells of the member at its place among them, and behind them there is no
lump. -/
theorem lumps_are_members_in_order (h : ofBytes data = .ok p) :
    ∃ members places, Zip.AreMembers data members ∧ ArePlaces members places ∧
      p.entries.length = places.length ∧
      (∀ i k, places[i]? = some k → ∃ m, members[k]? = some m ∧ p.Shows i m data) ∧
      ∀ i, places.length ≤ i → p.ShowsNothing i := by
  obtain ⟨members, hmembers, rfl⟩ := ofBytes_eq_ok_iff.mp h
  have hlength : (members.filter fun m => !m.isFolder).length =
      (members.findIdxs fun m => !m.isFolder).length := by
    rw [List.length_findIdxs, List.countP_eq_length_filter]
  refine ⟨members, members.findIdxs fun m => !m.isFolder, Zip.areMembers_of_membersOf? hmembers,
    arePlaces_findIdxs members, ?_, fun i k hk => ?_, fun i hi => ?_⟩
  · rw [entries, List.length_map, hlength]
  · obtain ⟨m, hm, -⟩ := (arePlaces_findIdxs members).mem_iff k |>.mp (List.mem_of_getElem? hk)
    exact ⟨m, hm, shows_of_getElem? ((getElem?_filter_eq hk).trans hm)⟩
  · exact showsNothing_of_length_le (hlength.trans_le hi)

/-- A zip file of a folder and of a file in it that holds one byte; both have their headers in one place. -/
def folderAndFile : ByteArray :=
  let header : List UInt8 := [0x50, 0x4B, 3, 4] ++ List.replicate 26 0
  let folder : List UInt8 := [0x50, 0x4B, 1, 2] ++ List.replicate 24 0 ++ [2] ++ List.replicate 17 0 ++ [0x67, 0x2F]
  let file : List UInt8 := [0x50, 0x4B, 1, 2] ++ List.replicate 12 0 ++ [0x8B, 0x9E, 0xD9, 0xD3, 1, 0, 0, 0, 1, 0, 0, 0, 5] ++
    List.replicate 17 0 ++ [0x67, 0x2F, 0x61, 0x2E, 0x62]
  let last : List UInt8 := [0x50, 0x4B, 5, 6, 0, 0, 0, 0, 2, 0, 2, 0, 99, 0, 0, 0, 31, 0, 0, 0, 0, 0]
  (header ++ [0x41] ++ folder ++ file ++ last).toByteArray

/-- Of a folder and a file the file is the only lump. -/
theorem lumps_are_members_in_order_folderAndFile : ∃ p members places,
    ofBytes folderAndFile = .ok p ∧ Zip.AreMembers folderAndFile members ∧ ArePlaces members places ∧
      places.length = 1 ∧ p.ShowsNothing 1 := by
  have hfiles : (Zip.membersOf? folderAndFile).map
      (fun members => (members.map (·.path), (members.filter fun m => !m.isFolder).length)) =
      some (["g/", "g/a.b"], 1) := by
    decide +kernel
  obtain ⟨members, hmembers, hfiles⟩ := Option.map_eq_some_iff.mp hfiles
  obtain ⟨-, hlength⟩ := Prod.mk.inj hfiles
  have hopened := ofBytes_eq_ok_iff.mpr ⟨members, hmembers, rfl⟩
  obtain ⟨members, places, hall, hplaces, hentries, -, hnothing⟩ := lumps_are_members_in_order hopened
  rw [entries, List.length_map, hlength] at hentries
  exact ⟨_, members, places, hopened, hall, hplaces, hentries.symm, hnothing 1 hentries.symm.le⟩

/-- A zip file of one file, whose record tells in its wide field that it holds as many bytes as the limit. It
holds the one byte `A`. -/
def hugeFile : ByteArray :=
  let path : List UInt8 := [0x67, 0x2F, 0x61, 0x2E, 0x62]
  let checksum : List UInt8 := [0x8B, 0x9E, 0xD9, 0xD3]
  let header : List UInt8 := [0x50, 0x4B, 3, 4, 45, 0, 0, 0, 0, 0, 0, 0, 0x21, 0] ++ checksum ++
    [1, 0, 0, 0, 1, 0, 0, 0, 5, 0, 0, 0] ++ path
  let record : List UInt8 := [0x50, 0x4B, 1, 2, 45, 0, 45, 0, 0, 0, 0, 0, 0, 0, 0x21, 0] ++ checksum ++
    [1, 0, 0, 0, 0xFF, 0xFF, 0xFF, 0xFF, 5, 0, 12, 0] ++ List.replicate 14 0 ++ path ++
    [1, 0, 8, 0, 0, 0, 0, 0, 0, 0, 0, 0x80]
  let last : List UInt8 := [0x50, 0x4B, 5, 6, 0, 0, 0, 0, 1, 0, 1, 0, 63, 0, 0, 0, 36, 0, 0, 0, 0, 0]
  (header ++ [0x41] ++ record ++ last).toByteArray

/-- The member of the file. -/
def hugeMember : Zip.Member where
  path := "g/a.b"
  pathBytes := [0x67, 0x2F, 0x61, 0x2E, 0x62]
  comment := ""
  method := Zip.stored
  encrypted := false
  ciphered := false
  crc := 0xD3D99E8B
  packedSize := 1
  size := roomLimit
  header := 0
  start := 35

/-- A lump need not be read as the member that it is: the member can be opened and holds the byte `A`, but for as
many bytes as its record tells there is no room. -/
theorem exists_lump_without_room : ∃ p m, ofBytes hugeFile = .ok p ∧ p.files[0]? = some m ∧
    m.Opens ∧ m.Holds hugeFile [0x41].toByteArray ∧ p.lump 0 = .error (.noRoom m.path m.size) ∧
    ¬ m.Reads hugeFile (p.lump 0) := by
  have hmembers : Zip.membersOf? hugeFile = some [hugeMember] := by
    decide +kernel
  have hfile : ([hugeMember].filter fun m => !m.isFolder)[0]? = some hugeMember := by
    decide +kernel
  have hopens : hugeMember.Opens := ⟨rfl, rfl, .inl rfl⟩
  have hholds : hugeMember.Holds hugeFile [0x41].toByteArray :=
    ⟨.inl ⟨rfl, by decide +kernel⟩, by decide +kernel⟩
  have hlump := (lump_eq_error (p := ⟨hugeFile, _⟩) hfile le_rfl).1 hopens
  refine ⟨_, hugeMember, ofBytes_eq_ok_iff.mpr ⟨_, hmembers, rfl⟩, hfile, hopens, hholds, hlump, fun hreads => ?_⟩
  have hread := (hreads.ok_iff _).mpr ⟨hopens, hholds⟩
  cases hlump.symm.trans hread

end Pk3

end Interlude
