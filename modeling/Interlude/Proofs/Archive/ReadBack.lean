import Mathlib
import Interlude.Archive.Basic
import Interlude.Proofs.Archive.Opening
import Interlude.Proofs.Text.Cutting
import Interlude.Proofs.Text.Utf8

/-!
# Reading a WAD back

A WAD can be put together from names and bytes: the header, the bytes of the lumps one after the other, and
the directory. Opening it finds every pair at its place in the list, and under a name the last pair that has
it. The argument follows the file: a record is read back from its sixteen bytes, so the directory is read back
from its records; and the position in the entry of a lump is the number of bytes before the lump, so its bytes
are found there.
-/

namespace Interlude

namespace Wad

variable {name : String} {e : LumpEntry} {data : ByteArray} {before bytes : List UInt8}
  {position : Nat} {lumps : List (String × ByteArray)} {entries : List LumpEntry}

/-! ### Writing -/

/-- A name that a directory can hold: it fits into the field, and neither the end of the name nor the
filling is found in it. -/
structure IsStorable (name : String) : Prop where
  width : name.utf8ByteSize ≤ Lump.nameWidth
  no_nul : '\x00' ∉ name.toList
  trimmed : name.toList.getLast?.any Text.isBlank = false

instance (name : String) : Decidable (IsStorable name) :=
  decidable_of_iff (name.utf8ByteSize ≤ Lump.nameWidth ∧ '\x00' ∉ name.toList ∧
      name.toList.getLast?.any Text.isBlank = false)
    ⟨fun h => ⟨h.1, h.2.1, h.2.2⟩, fun h => ⟨h.width, h.no_nul, h.trimmed⟩⟩

/-- The field of a name: its bytes, filled up with NUL. -/
def nameField (name : String) : List UInt8 :=
  name.toUTF8.data.toList ++ List.replicate (Lump.nameWidth - name.utf8ByteSize) 0

/-- The record of an entry. -/
def recordOf (e : LumpEntry) : List UInt8 :=
  Bytes.toLE 4 e.position.toNat ++ Bytes.toLE 4 e.size.toNat ++ nameField e.name

/-- The bytes of the lumps, one after the other. -/
def contents (lumps : List (String × ByteArray)) : List UInt8 :=
  lumps.flatMap fun lump => lump.2.data.toList

/-- The entries of lumps that lie one after the other from a position on. A lump without bytes lies
nowhere. -/
def entriesFrom : (position : Nat) → List (String × ByteArray) → List LumpEntry
  | _, [] => []
  | position, (name, bytes) :: rest =>
    ⟨name, .ofNat (if bytes.size = 0 then 0 else position), .ofNat bytes.size⟩ ::
      entriesFrom (position + bytes.size) rest

/-- The header of the WAD of the lumps, whose directory stands after them. -/
def header (magic : List UInt8) (lumps : List (String × ByteArray)) : List UInt8 :=
  magic ++ Bytes.toLE 4 lumps.length ++ Bytes.toLE 4 (headerSize + (contents lumps).length)

/-- The WAD of the lumps: the header, the lumps and the directory. -/
def assemble (magic : List UInt8) (lumps : List (String × ByteArray)) : ByteArray :=
  (header magic lumps ++ contents lumps ++
    (entriesFrom headerSize lumps).flatMap recordOf).toByteArray

/-! ### Names -/

/-- The field has the width of every name. -/
theorem length_nameField (h : IsStorable name) : (nameField name).length = Lump.nameWidth := by
  rw [nameField, List.length_append, Utf8.length_toUTF8, List.length_replicate]
  exact Nat.add_sub_of_le h.width

/-- A name is read back from its field. -/
theorem nameOfBytes_nameField (h : IsStorable name) : Lump.nameOfBytes (nameField name) = name := by
  have hzero := Utf8.zero_notMem_toUTF8 h.no_nul
  have hcut : (nameField name).takeWhile (· ≠ 0) = name.toUTF8.data.toList := by
    rw [nameField, List.takeWhile_append_of_pos, List.takeWhile_replicate]
    · simp
    · intro b hb
      exact decide_eq_true (fun hb0 : b = 0 => hzero (hb0 ▸ hb))
  rw [Lump.nameOfBytes, hcut, Utf8.decode_toUTF8, Text.trimEnd_eq_self h.trimmed, String.ofList_toList]

/-! ### Records -/

/-- A number of 32 bits is read back. -/
theorem ofNat_ofLE_toLE (n : UInt32) : UInt32.ofNat (Bytes.ofLE (Bytes.toLE 4 n.toNat)) = n := by
  have hlt : n.toNat < Bytes.capacity 4 := n.toNat_lt
  rw [Bytes.ofLE_toLE, Nat.mod_eq_of_lt hlt, UInt32.ofNat_toNat]

/-- A record has sixteen bytes. -/
theorem length_recordOf (h : IsStorable e.name) : (recordOf e).length = recordSize := by
  rw [recordOf, List.length_append, List.length_append, Bytes.length_toLE, Bytes.length_toLE,
    length_nameField h]
  rfl

/-- An entry is read back from its record. -/
theorem entryOfRecord_recordOf (h : IsStorable e.name) : entryOfRecord (recordOf e) = e := by
  have hposition : (recordOf e).take 4 = Bytes.toLE 4 e.position.toNat := by
    rw [recordOf, List.append_assoc, List.take_left' (Bytes.length_toLE _ _)]
  have hrest : (recordOf e).drop 4 = Bytes.toLE 4 e.size.toNat ++ nameField e.name := by
    rw [recordOf, List.append_assoc, List.drop_left' (Bytes.length_toLE _ _)]
  have hsize : ((recordOf e).drop 4).take 4 = Bytes.toLE 4 e.size.toNat := by
    rw [hrest, List.take_left' (Bytes.length_toLE _ _)]
  have hname : (recordOf e).drop 8 = nameField e.name := by
    rw [← List.drop_drop (i := 4) (j := 4), hrest, List.drop_left' (Bytes.length_toLE _ _)]
  rw [entryOfRecord, hposition, hsize, hname, ofNat_ofLE_toLE, ofNat_ofLE_toLE, nameOfBytes_nameField h]

/-- Bytes of a file are found after those before them. -/
theorem bytesAt_of_prefix (h : before ++ bytes <+: data.data.toList) :
    bytesAt data before.length bytes.length = bytes := by
  obtain ⟨after, hfile⟩ := h
  rw [bytesAt, ← hfile, List.append_assoc, List.drop_left, List.take_left]

/-- Records that stand one after the other are read back. -/
theorem directory_of_prefix (hnames : ∀ e ∈ entries, IsStorable e.name)
    (h : before ++ entries.flatMap recordOf <+: data.data.toList) :
    directory data entries.length before.length = entries := by
  induction entries generalizing before with
  | nil => rfl
  | cons e rest ih =>
    obtain ⟨hname, hrest⟩ := List.forall_mem_cons.mp hnames
    have hlength := length_recordOf hname
    rw [List.flatMap_cons, ← List.append_assoc] at h
    have hentry : entryAt data before.length = e := by
      rw [← entryOfRecord_slice, toList_slice, ← hlength,
        bytesAt_of_prefix ((List.prefix_append _ _).trans h), entryOfRecord_recordOf hname]
    have hothers : directory data rest.length (before ++ recordOf e).length = rest := ih hrest h
    rw [List.length_append, hlength] at hothers
    rw [List.length_cons, directory_succ, hentry, hothers]

/-! ### Lumps -/

/-- An entry tells of a lump: the bytes that it tells of lie in the file and are those of the lump. -/
structure TellsOf (data : ByteArray) (lump : String × ByteArray) (e : LumpEntry) : Prop where
  inside : e.position.toNat + e.size.toNat ≤ data.size
  slice_eq : slice data e.position.toNat e.size.toNat = lump.2

/-- A lump lies after the bytes before it. -/
theorem slice_of_prefix {lump : ByteArray} (h : before ++ lump.data.toList <+: data.data.toList) :
    slice data before.length lump.size = lump := by
  have hlength : lump.data.toList.length = lump.size := Array.length_toList
  refine ByteArray.ext (Array.toList_inj.mp ?_)
  rw [toList_slice, ← hlength, bytesAt_of_prefix h]

/-- The entries of lumps that lie one after the other tell of them. -/
theorem forall₂_tellsOf (h : before ++ contents lumps <+: data.data.toList) (hsize : data.size < 2 ^ 32) :
    List.Forall₂ (TellsOf data) lumps (entriesFrom before.length lumps) := by
  induction lumps generalizing before with
  | nil => exact .nil
  | cons lump rest ih =>
    obtain ⟨name, bytes⟩ := lump
    rw [contents, List.flatMap_cons, ← List.append_assoc] at h
    have hlump : before ++ bytes.data.toList <+: data.data.toList := (List.prefix_append _ _).trans h
    have hbytes : bytes.data.toList.length = bytes.size := Array.length_toList
    have hothers : List.Forall₂ (TellsOf data) rest
        (entriesFrom (before ++ bytes.data.toList).length rest) := ih h
    rw [List.length_append, hbytes] at hothers
    have hinside : before.length + bytes.size ≤ data.size := by
      have hle := hlump.length_le
      rwa [List.length_append, hbytes, Array.length_toList] at hle
    have hnumber {n : Nat} (hn : n ≤ data.size) : (UInt32.ofNat n).toNat = n :=
      UInt32.toNat_ofNat_of_lt' (hn.trans_lt hsize)
    refine .cons ?_ hothers
    by_cases hempty : bytes.size = 0
    · obtain rfl : bytes = .empty := ByteArray.size_eq_zero_iff.mp hempty
      have hslice : slice data ([] : List UInt8).length ByteArray.empty.size = .empty :=
        slice_of_prefix List.nil_prefix
      exact ⟨Nat.zero_le _, hslice⟩
    · rw [if_neg hempty]
      refine ⟨?_, ?_⟩
      · dsimp only
        rw [hnumber (by omega), hnumber (by omega)]
        exact hinside
      · dsimp only
        rw [hnumber (by omega), hnumber (by omega)]
        exact slice_of_prefix hlump

/-- A lump of which its entry tells is found. -/
theorem lump_eq_of_forall₂ (h : List.Forall₂ (TellsOf data) lumps entries) {i : Nat}
    {lump : String × ByteArray} (hlump : lumps[i]? = some lump) :
    (⟨data, entries⟩ : Wad).lump i = .ok lump.2 := by
  obtain ⟨hi, rfl⟩ := List.getElem?_eq_some_iff.mp hlump
  have hentries : i < entries.length := h.length_eq ▸ hi
  have htells : TellsOf data lumps[i] entries[i] := h.get hi hentries
  have hentry : (⟨data, entries⟩ : Wad).entries[i]? = some entries[i] := List.getElem?_eq_getElem hentries
  rw [lump_eq hentry, if_pos htells.inside, htells.slice_eq]

/-! ### Files -/

/-- Each lump has one entry. -/
@[simp] theorem length_entriesFrom (position : Nat) (lumps : List (String × ByteArray)) :
    (entriesFrom position lumps).length = lumps.length := by
  induction lumps generalizing position with
  | nil => rfl
  | cons lump rest ih => simp [entriesFrom, ih]

/-- The entries have the names of the lumps. -/
theorem map_name_entriesFrom (position : Nat) (lumps : List (String × ByteArray)) :
    (entriesFrom position lumps).map (·.name) = lumps.map (·.1) := by
  induction lumps generalizing position with
  | nil => rfl
  | cons lump rest ih => simp [entriesFrom, ih]

/-- So these can be held if those can. -/
theorem isStorable_entriesFrom (hnames : ∀ lump ∈ lumps, IsStorable lump.1) (position : Nat) :
    ∀ e ∈ entriesFrom position lumps, IsStorable e.name := by
  intro e he
  have hname : e.name ∈ (entriesFrom position lumps).map (·.name) := List.mem_map_of_mem he
  rw [map_name_entriesFrom, List.mem_map] at hname
  obtain ⟨lump, hlump, hsame⟩ := hname
  exact hsame ▸ hnames lump hlump

/-- The size of a directory. -/
theorem length_flatMap_recordOf (hnames : ∀ e ∈ entries, IsStorable e.name) :
    (entries.flatMap recordOf).length = entries.length * recordSize := by
  induction entries with
  | nil => rfl
  | cons e rest ih =>
    obtain ⟨hname, hrest⟩ := List.forall_mem_cons.mp hnames
    rw [List.flatMap_cons, List.length_append, length_recordOf hname, ih hrest, List.length_cons]
    ring

/-- Either way to start a WAD takes four bytes. -/
theorem length_of_mem_magics {magic : List UInt8} (h : magic ∈ magics) : magic.length = 4 := by
  revert magic
  decide

/-- A number below 2³¹ is read as what it is. -/
theorem numberAt_of_prefix {n : Nat} (hn : n < 2 ^ 31) (hposition : before.length = position)
    (h : before ++ Bytes.toLE 4 n <+: data.data.toList) : numberAt data position = n := by
  subst hposition
  have hbytes := bytesAt_of_prefix h
  rw [Bytes.length_toLE] at hbytes
  have hvalue : Bytes.ofLE (Bytes.toLE 4 n) = n := by
    rw [Bytes.ofLE_toLE, Nat.mod_eq_of_lt (hn.trans (by decide))]
  rw [numberAt, hbytes, hvalue, if_pos hn]

/-- The header has twelve bytes. -/
theorem length_header {magic : List UInt8} (h : magic ∈ magics) : (header magic lumps).length = headerSize := by
  rw [header, List.length_append, List.length_append, Bytes.length_toLE, Bytes.length_toLE,
    length_of_mem_magics h, headerSize]

/-- What a file that was put together holds. -/
theorem toList_assemble (magic : List UInt8) (lumps : List (String × ByteArray)) :
    (assemble magic lumps).data.toList =
      header magic lumps ++ contents lumps ++ (entriesFrom headerSize lumps).flatMap recordOf :=
  List.toList_data_toByteArray

/-- A lump of one byte, and one without bytes, which lies nowhere. -/
example : (assemble "PWAD".toUTF8.data.toList [("A", ⟨#[7]⟩), ("END", .empty)]).data.toList =
    [80, 87, 65, 68, 2, 0, 0, 0, 13, 0, 0, 0, 7,
      12, 0, 0, 0, 1, 0, 0, 0, 65, 0, 0, 0, 0, 0, 0, 0,
      0, 0, 0, 0, 0, 0, 0, 0, 69, 78, 68, 0, 0, 0, 0, 0] := by decide +kernel

/-- It starts with its header, and the lumps follow. -/
theorem prefix_assemble (magic : List UInt8) (lumps : List (String × ByteArray)) :
    header magic lumps ++ contents lumps <+: (assemble magic lumps).data.toList := by
  rw [toList_assemble]
  exact List.prefix_append _ _

section

variable {magic : List UInt8} (hmagic : magic ∈ magics) (hnames : ∀ lump ∈ lumps, IsStorable lump.1)
  (hsize : (assemble magic lumps).size < 2 ^ 31)

include hmagic hnames

/-- The size of such a file. -/
theorem size_assemble :
    (assemble magic lumps).size = headerSize + (contents lumps).length + lumps.length * recordSize := by
  have hrecords := length_flatMap_recordOf (isStorable_entriesFrom hnames headerSize)
  have hlength : (assemble magic lumps).data.toList.length = (assemble magic lumps).size :=
    Array.length_toList
  rw [← hlength, toList_assemble, List.length_append, List.length_append, length_header hmagic, hrecords,
    length_entriesFrom]

include hsize

/-- The header is read back: how it starts, how many lumps there are and where the directory stands. -/
theorem header_assemble :
    bytesAt (assemble magic lumps) 0 4 = magic ∧ numberAt (assemble magic lumps) 4 = lumps.length ∧
      numberAt (assemble magic lumps) 8 = (headerSize + (contents lumps).length : Nat) := by
  have hfour := length_of_mem_magics hmagic
  have htotal := size_assemble hmagic hnames
  rw [recordSize] at htotal
  have hheader : header magic lumps <+: (assemble magic lumps).data.toList :=
    (List.prefix_append _ _).trans (prefix_assemble magic lumps)
  have hcount : magic ++ Bytes.toLE 4 lumps.length <+: (assemble magic lumps).data.toList :=
    (List.prefix_append _ _).trans hheader
  refine ⟨?_, numberAt_of_prefix (by omega) hfour hcount,
    numberAt_of_prefix (by omega) ?_ hheader⟩
  · have htake := List.prefix_iff_eq_take.mp ((List.prefix_append _ _).trans hcount)
    rw [bytesAt, List.drop_zero, ← hfour, ← htake]
  · rw [List.length_append, Bytes.length_toLE, hfour]

/-- A file that was put together is a container. -/
theorem isContainer_assemble : IsContainer (assemble magic lumps) := by
  obtain ⟨hstart, hcount, hoffset⟩ := header_assemble hmagic hnames hsize
  have htotal := size_assemble hmagic hnames
  rw [headerSize, recordSize] at htotal
  refine ⟨by omega, hstart.symm ▸ hmagic, by omega, by omega, ?_⟩
  rw [hcount, hoffset, headerSize]
  omega

/-- Its directory is that of the entries. -/
theorem listed_assemble : listed (assemble magic lumps) = entriesFrom headerSize lumps := by
  obtain ⟨-, hcount, hoffset⟩ := header_assemble hmagic hnames hsize
  have hrecords : header magic lumps ++ contents lumps ++
      (entriesFrom headerSize lumps).flatMap recordOf <+: (assemble magic lumps).data.toList :=
    toList_assemble magic lumps ▸ List.prefix_rfl
  have hdirectory := directory_of_prefix (isStorable_entriesFrom hnames headerSize) hrecords
  rw [List.length_append, length_header hmagic, length_entriesFrom] at hdirectory
  rw [listed, hcount, hoffset, Int.toNat_natCast, Int.toNat_natCast, hdirectory]

/-- So it is opened, with the entries of its lumps. -/
theorem ofBytes_assemble :
    ofBytes (assemble magic lumps) = .ok ⟨assemble magic lumps, entriesFrom headerSize lumps⟩ := by
  rw [← listed_assemble hmagic hnames hsize]
  exact ofBytes_eq_ok_iff.mpr ⟨isContainer_assemble hmagic hnames hsize, rfl⟩

end

/-- A WAD holds the lumps of a list: under their names and, each at its place, with their bytes. -/
structure Holds (w : Wad) (lumps : List (String × ByteArray)) : Prop where
  names_eq : w.entries.map (·.name) = lumps.map (·.1)
  lump_eq : ∀ (i : Nat) (lump : String × ByteArray), lumps[i]? = some lump → w.lump i = .ok lump.2

/-- Each entry has the name of its lump. -/
theorem Holds.map_name {w : Wad} (h : w.Holds lumps) (i : Nat) :
    (w.entries[i]?).map (·.name) = (lumps[i]?).map (·.1) := by
  rw [← List.getElem?_map, h.names_eq, List.getElem?_map]

/-- The WAD of a file that was put together holds the lumps. -/
theorem holds_assemble {magic : List UInt8} (hmagic : magic ∈ magics)
    (hsize : (assemble magic lumps).size < 2 ^ 31) :
    Holds ⟨assemble magic lumps, entriesFrom headerSize lumps⟩ lumps := by
  have htells := forall₂_tellsOf (prefix_assemble magic lumps) (hsize.trans (by decide))
  rw [length_header hmagic] at htells
  exact ⟨map_name_entriesFrom headerSize lumps, fun i lump => lump_eq_of_forall₂ htells⟩

end Wad

namespace Archive

variable {magic : List UInt8} {lumps : List (String × ByteArray)} {w : Wad}

/-- A file that can be opened as a WAD is, for no WAD starts as a PK3. -/
theorem ofBytes_eq_wad {data : ByteArray} (h : Wad.ofBytes data = .ok w) : ofBytes data = .ok (.wad w) := by
  have hzip : ∀ magic ∈ Wad.magics, zipMagic.isPrefixOf magic = false := by decide
  have hextract : (data.extract 0 4).data.toList = Wad.bytesAt data 0 4 := Wad.toList_slice data 0 4
  have hmagic := (Wad.ofBytes_eq_ok_iff.mp h).1.magic
  rw [ofBytes, hextract, hzip _ hmagic, h]
  rfl

/-- Looking for the last place of a list before `n` that has a property finds the last item there that has
it. -/
theorem bind_find?_range {α : Type} (xs : List α) (p : α → Bool) (n : Nat) :
    ((List.range n).reverse.find? fun i => (xs[i]?).any p).bind (xs[·]?) =
      (xs.take n).reverse.find? p := by
  induction n with
  | zero => rfl
  | succ n ih =>
    rw [List.range_succ, List.reverse_append, List.reverse_singleton, List.singleton_append,
      List.find?_cons, List.take_add_one, List.reverse_append]
    cases hx : xs[n]? with
    | none => exact ih
    | some x =>
      rw [Option.any_some, Option.toList_some, List.reverse_singleton, List.singleton_append,
        List.find?_cons]
      cases p x with
      | true => exact hx
      | false => exact ih

/-- A lump is found at its place, with its name. -/
theorem named_of_holds (h : w.Holds lumps) (i : Nat) :
    (Archive.wad w).named i = match lumps[i]? with
      | some lump => .ok lump
      | none => .error (.noLump i) := by
  have hname := h.map_name i
  rw [named, entries]
  cases hlump : lumps[i]? with
  | none =>
    rw [hlump, Option.map_none, Option.map_eq_none_iff] at hname
    rw [hname]
  | some lump =>
    rw [hlump] at hname
    obtain ⟨e, hentry, hsame⟩ := Option.map_eq_some_iff.mp hname
    rw [hentry, Archive.lump, h.lump_eq i lump hlump]
    dsimp only
    rw [hsame]
    rfl

/-- The place of the last lump with a name can be looked for among the lumps. -/
theorem lastIndex?_of_holds (h : w.Holds lumps) (name : String) :
    (Archive.wad w).lastIndex? name = (List.range lumps.length).reverse.find? fun i =>
      (lumps[i]?).any fun lump => Text.sameName lump.1 name := by
  have hlength : w.entries.length = lumps.length := by
    rw [← List.length_map (·.name), h.names_eq, List.length_map]
  have hsame (i : Nat) : (w.entries[i]?).any (fun e => Text.sameName e.name name) =
      (lumps[i]?).any fun lump => Text.sameName lump.1 name := by
    have hname := congrArg (Option.any (Text.sameName · name)) (h.map_name i)
    rwa [Option.any_map, Option.any_map] at hname
  rw [lastIndex?, entries, hlength]
  simp only [hsame]

/-- Under a name the last lump is found that has it. -/
theorem lumpNamed?_of_holds (h : w.Holds lumps) (name : String) :
    (Archive.wad w).lumpNamed? name =
      .ok ((lumps.filter fun lump => Text.sameName lump.1 name).getLast?.map (·.2)) := by
  have hplace := lastIndex?_of_holds h name
  have hlast := bind_find?_range lumps (fun lump => Text.sameName lump.1 name) lumps.length
  rw [List.take_length, ← hplace] at hlast
  rw [List.getLast?_filter, ← hlast, lumpNamed?]
  cases hfound : (Archive.wad w).lastIndex? name with
  | none => rfl
  | some i =>
    rw [hfound] at hplace
    have hany := List.find?_some hplace.symm
    cases hlump : lumps[i]? with
    | none =>
      rw [hlump] at hany
      cases hany
    | some lump =>
      dsimp only
      rw [Archive.lump, h.lump_eq i lump hlump, Option.bind_some, hlump]
      rfl

/-- A WAD that is put together from names and bytes is opened as one. Every lump has its name and its bytes
at its place in the list, and there is none past the end; under a name, of which the case does not matter,
the bytes of the last lump are found that has it. -/
theorem assembled_reads_back (hmagic : magic ∈ Wad.magics) (hnames : ∀ lump ∈ lumps, Wad.IsStorable lump.1)
    (hsize : (Wad.assemble magic lumps).size < 2 ^ 31) :
    ∃ w, ofBytes (Wad.assemble magic lumps) = .ok (.wad w) ∧
      (∀ i, (Archive.wad w).named i = match lumps[i]? with
        | some lump => .ok lump
        | none => .error (.noLump i)) ∧
      ∀ name, (Archive.wad w).lumpNamed? name =
        .ok ((lumps.filter fun lump => Text.sameName lump.1 name).getLast?.map (·.2)) := by
  have hopened := Wad.ofBytes_assemble hmagic hnames hsize
  have hholds := Wad.holds_assemble hmagic hsize
  exact ⟨_, ofBytes_eq_wad hopened, named_of_holds hholds, lumpNamed?_of_holds hholds⟩

/-- Four lumps: one without bytes, one whose name has a character of two bytes, and two under one name. -/
theorem assembled_reads_back_twice_named :
    let lumps : List (String × ByteArray) :=
      [("MAPINFO", ⟨#[1]⟩), ("S_START", .empty), ("STRAßE", ⟨#[2, 3]⟩), ("mapinfo", ⟨#[4]⟩)]
    ∃ w, ofBytes (Wad.assemble "PWAD".toUTF8.data.toList lumps) = .ok (.wad w) ∧
      (Archive.wad w).named 1 = .ok ("S_START", .empty) ∧
      (Archive.wad w).named 2 = .ok ("STRAßE", ⟨#[2, 3]⟩) ∧
      (Archive.wad w).named 4 = .error (.noLump 4) ∧
      (Archive.wad w).lumpNamed? "MapInfo" = .ok (some ⟨#[4]⟩) ∧
      (Archive.wad w).lumpNamed? "STRASSE" = .ok none := by
  intro lumps
  have hmagic : "PWAD".toUTF8.data.toList ∈ Wad.magics := by decide
  have hnames : ∀ lump ∈ lumps, Wad.IsStorable lump.1 := by decide
  have hsize : (Wad.assemble "PWAD".toUTF8.data.toList lumps).size < 2 ^ 31 := by decide +kernel
  obtain ⟨w, hopened, hnamed, hfound⟩ := assembled_reads_back hmagic hnames hsize
  exact ⟨w, hopened, hnamed 1, hnamed 2, hnamed 4, hfound "MapInfo", hfound "STRASSE"⟩

end Archive

end Interlude
