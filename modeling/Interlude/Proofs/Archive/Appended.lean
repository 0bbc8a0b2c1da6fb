import Mathlib
import Interlude.Proofs.Archive.Opening
import Interlude.Proofs.Bytes.Appended

/-!
# Trailing bytes do not matter

Bytes that follow what a format asks for are not looked at: a picture, a list of textures or of patch names,
and a WAD that are read from a buffer are read from every longer buffer that starts with it as well. The
length of the buffer enters only where a read would go past its end. This is why the lumps of a WAD whose
bytes lie outside the file, and only they, may change when the file grows.
-/

namespace Interlude

open Cursor

/-! ### Pictures -/

namespace Picture

/-- Reading the header of a picture persists. -/
theorem persists_readHeader : Persists readHeader :=
  persists_i16.bind fun _ => persists_i16.bind fun _ => persists_i16.bind fun _ =>
    persists_i16.bind fun _ => persists_pure _

/-- Reading a run persists. -/
theorem persists_readRun : Persists readRun := by
  refine persists_u8.bind fun row => ?_
  split
  · exact persists_pure none
  · exact persists_u8.bind fun count => (persists_skip 1).bind fun _ =>
      (persists_take count.toNat).bind fun _ => (persists_skip 1).bind fun _ => persists_pure _

/-- The runs of a column that can be read are read from the longer buffer as well. -/
theorem columnPosts_extend {column : UInt16} {room : Nat} {c : Cursor} {posts : List Post}
    (h : columnPosts column room c = some posts) (more : ByteArray) :
    columnPosts column room (c.extend more) = some posts := by
  fun_induction columnPosts column room c generalizing posts with
  | case1 => contradiction
  | case2 room c c' hread => rw [columnPosts, persists_readRun c _ c' hread more, ← h]
  | case3 => contradiction
  | case4 room c row pixels c' hread hpixels post =>
    rename_i hfull
    rw [columnPosts, persists_readRun c _ c' hread more, ← h]
    dsimp only
    rw [dif_neg hpixels, dif_pos hfull]
  | case5 room c row pixels c' hread hpixels post hmore =>
    rename_i ih
    obtain ⟨others, hothers, rfl⟩ := Option.map_eq_some_iff.mp h
    rw [columnPosts, persists_readRun c _ c' hread more]
    dsimp only
    rw [dif_neg hpixels, dif_neg hmore, ih hothers, Option.map_some]

/-- So is the offset of a column. -/
theorem columnOffset?_append {lump : ByteArray} {column offset : Nat}
    (h : columnOffset? lump column = some offset) (more : ByteArray) :
    columnOffset? (lump ++ more) column = some offset := by
  obtain ⟨n, c, hread, hnonneg, rfl⟩ := columnOffset?_eq_some_iff.mp h
  exact columnOffset?_eq_some_iff.mpr ⟨n, c.extend more, persists_i32 _ _ _ hread more, hnonneg, rfl⟩

/-- And so is the column. -/
theorem column?_append {lump : ByteArray} {height column : Nat} {posts : List Post}
    (h : column? lump height column = some posts) (more : ByteArray) :
    column? (lump ++ more) height column = some posts := by
  obtain ⟨offset, hoffset, hposts⟩ := Option.bind_eq_some_iff.mp h
  exact Option.bind_eq_some_iff.mpr
    ⟨offset, columnOffset?_append hoffset more, columnPosts_extend hposts more⟩

/-- A picture is read from the longer lump as well. -/
theorem decode?_append {lump : ByteArray} {p : Picture} (h : decode? lump = some p) (more : ByteArray) :
    decode? (lump ++ more) = some p := by
  obtain ⟨width, height, left, top, c, columns, hheader, hwidth, hheight, hcolumns, rfl⟩ :=
    decode?_eq_some_iff.mp h
  exact decode?_eq_some_iff.mpr ⟨width, height, left, top, c.extend more, columns,
    persists_readHeader _ _ _ hheader more, hwidth, hheight,
    hcolumns.imp fun _ _ hcolumn => column?_append hcolumn more, rfl⟩

end Picture

/-! ### Textures and patch names -/

namespace Lump

/-- What a reader that persists gives from a place it gives from there in the longer buffer. -/
theorem map_fst_append {α : Type} {read : Reading α} (hread : Persists read) {lump : ByteArray}
    {position : Nat} {a : α} (h : Prod.fst <$> read ⟨lump, position⟩ = .ok a) (more : ByteArray) :
    Prod.fst <$> read ⟨lump ++ more, position⟩ = .ok a := by
  cases hfound : read ⟨lump, position⟩ with
  | error e =>
    rw [hfound] at h
    cases h
  | ok found =>
    rw [hfound] at h
    have hlonger : read ⟨lump ++ more, position⟩ = _ := hread _ _ _ hfound more
    rw [hlonger, ← h]
    rfl

/-- The texture at an offset is read from the longer lump as well. -/
theorem textureAt_append {lump : ByteArray} {offset : Int32} {texture : Texture}
    (h : textureAt lump offset = .ok texture) (more : ByteArray) :
    textureAt (lump ++ more) offset = .ok texture := by
  unfold textureAt at h ⊢
  split at h
  · cases h
  · rename_i hnonneg
    rw [if_neg hnonneg]
    exact map_fst_append persists_readTexture h more

/-- Items that one function finds, all of them, are found by another one that finds what the first one
does. -/
theorem mapM_eq_ok_of_forall {ε α β : Type} {f g : α → Except ε β}
    (h : ∀ a b, f a = .ok b → g a = .ok b) {items : List α} {found : List β}
    (hfound : items.mapM f = .ok found) : items.mapM g = .ok found := by
  induction items generalizing found with
  | nil => exact hfound
  | cons item items ih =>
    rw [List.mapM_cons] at hfound ⊢
    cases hfirst : f item with
    | error e => simp [hfirst, bind, Except.bind] at hfound
    | ok first =>
      cases hothers : items.mapM f with
      | error e => simp [hfirst, hothers, bind, Except.bind] at hfound
      | ok others =>
        rw [hfirst, hothers] at hfound
        rw [h item first hfirst, ih hothers]
        exact hfound

/-- The textures of a lump are read from the longer lump as well. -/
theorem readTextures_append {lump : ByteArray} {textures : List Texture}
    (h : readTextures lump = .ok textures) (more : ByteArray) :
    readTextures (lump ++ more) = .ok textures := by
  unfold readTextures at h ⊢
  cases hoffsets : readCounted Cursor.i32 (.start lump) with
  | error e => simp [hoffsets, bind, Except.bind] at h
  | ok read =>
    obtain ⟨offsets, c⟩ := read
    have hlonger : readCounted Cursor.i32 (.start (lump ++ more)) = .ok (offsets, c.extend more) :=
      persists_readCounted persists_i32 _ _ _ hoffsets more
    rw [hoffsets] at h
    rw [hlonger]
    exact mapM_eq_ok_of_forall (fun offset texture hread => textureAt_append hread more) h

/-- So are patch names. -/
theorem readPatchNames_append {lump : ByteArray} {names : List String}
    (h : readPatchNames lump = .ok names) (more : ByteArray) :
    readPatchNames (lump ++ more) = .ok names :=
  map_fst_append (persists_readCounted persists_readName) h more

end Lump

/-! ### WADs -/

namespace Wad

/-- Bytes of a file are where they were when more bytes follow. -/
theorem bytesAt_append {data : ByteArray} {position size : Nat} (h : position + size ≤ data.size)
    (more : ByteArray) : bytesAt (data ++ more) position size = bytesAt data position size :=
  take_rest_extend (c := ⟨data, position⟩) h

/-- A lump that is found is found in the longer file as well. -/
theorem slice_append {data : ByteArray} {position size : Nat} (h : position + size ≤ data.size)
    (more : ByteArray) : slice (data ++ more) position size = slice data position size := by
  refine ByteArray.ext (Array.toList_inj.mp ?_)
  rw [toList_slice, toList_slice, bytesAt_append h]

/-- The numbers of a file are where they were. -/
theorem numberAt_append {data : ByteArray} {position : Nat} (h : position + 4 ≤ data.size)
    (more : ByteArray) : numberAt (data ++ more) position = numberAt data position := by
  rw [numberAt, bytesAt_append h, numberAt]

/-- A file with more bytes at its end is a container if it was one. -/
theorem IsContainer.append {data : ByteArray} (h : IsContainer data) (more : ByteArray) :
    IsContainer (data ++ more) := by
  have hheader := h.header
  have hdirectory := h.directory_le
  have hcount : numberAt (data ++ more) 4 = numberAt data 4 := numberAt_append (by omega) more
  have hoffset : numberAt (data ++ more) 8 = numberAt data 8 := numberAt_append (by omega) more
  constructor
  · rw [ByteArray.size_append]
    omega
  · rw [bytesAt_append (by omega)]
    exact h.magic
  · rw [hcount]
    exact h.count_nonneg
  · rw [hoffset]
    exact h.offset_nonneg
  · rw [hcount, hoffset, ByteArray.size_append]
    omega

/-- Its entries are the same. -/
theorem IsContainer.listed_append {data : ByteArray} (h : IsContainer data) (more : ByteArray) :
    listed (data ++ more) = listed data := by
  have hheader := h.header
  have hcount : numberAt (data ++ more) 4 = numberAt data 4 := numberAt_append (by omega) more
  have hoffset : numberAt (data ++ more) 8 = numberAt data 8 := numberAt_append (by omega) more
  rw [listed, listed, directory_eq, directory_eq, hcount, hoffset]
  refine List.map_congr_left fun i hi => ?_
  have hi := List.mem_range.mp hi
  have hplace : (numberAt data 8).toNat + i * recordSize + 16 ≤ data.size := by
    have := h.directory_le
    have := h.offset_nonneg
    rw [recordSize]
    omega
  rw [entryAt, bytesAt_append (by omega), bytesAt_append (by omega), bytesAt_append (by omega), entryAt]

/-- Only a lump whose bytes lie outside the file may change when the file grows. -/
theorem lump_append (w : Wad) (i : Nat) (more : ByteArray) :
    (⟨w.data ++ more, w.entries⟩ : Wad).lump i = w.lump i ∨
      ∃ name, w.lump i = .error (.lumpOutside i name) := by
  let longer : Wad := ⟨w.data ++ more, w.entries⟩
  change longer.lump i = w.lump i ∨ _
  by_cases hi : w.entries.length ≤ i
  · rw [lump_of_length_le hi, lump_of_length_le (w := longer) hi]
    exact .inl rfl
  have hentry : w.entries[i]? = some w.entries[i] := List.getElem?_eq_getElem (not_le.mp hi)
  by_cases hinside : w.entries[i].position.toNat + w.entries[i].size.toNat ≤ w.data.size
  · have hlonger := hinside.trans (Nat.le_add_right _ more.size)
    rw [← ByteArray.size_append] at hlonger
    rw [lump_eq hentry, lump_eq (w := longer) hentry, if_pos hinside, if_pos hlonger,
      slice_append hinside]
    exact .inl rfl
  · rw [lump_eq hentry, if_neg hinside]
    exact .inr ⟨_, rfl⟩

/-- A WAD is opened from the longer file as well. It has the same entries, and a lump is what it was unless
its bytes were outside the file. -/
theorem ofBytes_append {data : ByteArray} {w : Wad} (h : ofBytes data = .ok w) (more : ByteArray) :
    ∃ w', ofBytes (data ++ more) = .ok w' ∧ w'.entries = w.entries ∧
      ∀ i, w'.lump i = w.lump i ∨ ∃ name, w.lump i = .error (.lumpOutside i name) := by
  obtain ⟨hcontainer, rfl⟩ := ofBytes_eq_ok_iff.mp h
  refine ⟨⟨data ++ more, listed data⟩, ofBytes_eq_ok_iff.mpr ⟨hcontainer.append more, ?_⟩, rfl,
    fun i => lump_append ⟨data, listed data⟩ i more⟩
  rw [hcontainer.listed_append more]

end Wad

/-- Trailing bytes do not matter: what is read as a picture, as textures, as patch names or as a WAD is read
as the same when any bytes follow. The lumps of the WAD that were found are found as they were, and of the
others only those that were said to lie outside the file may be found now. -/
theorem reads_persist_append (l e : ByteArray) :
    (∀ p, Picture.decode? l = some p → Picture.decode? (l ++ e) = some p) ∧
    (∀ textures, Lump.readTextures l = .ok textures → Lump.readTextures (l ++ e) = .ok textures) ∧
    (∀ names, Lump.readPatchNames l = .ok names → Lump.readPatchNames (l ++ e) = .ok names) ∧
    ∀ w, Wad.ofBytes l = .ok w → ∃ w', Wad.ofBytes (l ++ e) = .ok w' ∧ w'.entries = w.entries ∧
      (∀ i bytes, w.lump i = .ok bytes → w'.lump i = .ok bytes) ∧
      ∀ i, w'.lump i = w.lump i ∨ ∃ name, w.lump i = .error (.lumpOutside i name) := by
  refine ⟨fun p h => Picture.decode?_append h e, fun textures h => Lump.readTextures_append h e,
    fun names h => Lump.readPatchNames_append h e, fun w h => ?_⟩
  obtain ⟨w', hopened, hentries, hlumps⟩ := Wad.ofBytes_append h e
  refine ⟨w', hopened, hentries, fun i bytes hbytes => ?_, hlumps⟩
  rcases hlumps i with hsame | ⟨name, houtside⟩
  · rw [hsame, hbytes]
  · rw [houtside] at hbytes
    cases hbytes

/-- A picture, textures, patch names and a WAD, each with two more bytes. These are where the second lump of
the WAD is said to be. -/
theorem reads_persist_append_two :
    let picture : ByteArray := ⟨#[1, 0, 1, 0, 0, 0, 0, 0, 12, 0, 0, 0, 0, 1, 0, 5, 0]⟩
    let textures : ByteArray := ⟨#[1, 0, 0, 0, 8, 0, 0, 0,
      87, 0, 0, 0, 0, 0, 0, 0, 0, 0, 0, 0, 64, 0, 128, 0, 0, 0, 0, 0, 0, 0]⟩
    let names : ByteArray := ⟨#[1, 0, 0, 0, 87, 65, 76, 76, 0, 0, 0, 0]⟩
    let wad : ByteArray := ⟨#[80, 87, 65, 68, 2, 0, 0, 0, 14, 0, 0, 0, 7, 8,
      12, 0, 0, 0, 2, 0, 0, 0, 65, 0, 0, 0, 0, 0, 0, 0,
      46, 0, 0, 0, 2, 0, 0, 0, 66, 0, 0, 0, 0, 0, 0, 0]⟩
    let more : ByteArray := ⟨#[255, 7]⟩
    let entries : List LumpEntry := [⟨"A", 12, 2⟩, ⟨"B", 46, 2⟩]
    Picture.decode? (picture ++ more) = some ⟨1, 1, 0, 0, [⟨0, 0, [5]⟩]⟩ ∧
    Lump.readTextures (textures ++ more) = .ok [⟨"W", 0, 64, 128, 0, []⟩] ∧
    Lump.readPatchNames (names ++ more) = .ok ["WALL"] ∧
    Wad.ofBytes wad = .ok ⟨wad, entries⟩ ∧
    ∃ w, Wad.ofBytes (wad ++ more) = .ok w ∧ w.entries = entries ∧
      w.lump 0 = .ok (Wad.slice wad 12 2) := by
  intro picture textures names wad more entries
  have hpicture : Picture.decode? picture = some ⟨1, 1, 0, 0, [⟨0, 0, [5]⟩]⟩ := by decide +kernel
  have htextures : Lump.readTextures textures = .ok [⟨"W", 0, 64, 128, 0, []⟩] := by decide +kernel
  have hnames : Lump.readPatchNames names = .ok ["WALL"] := by decide +kernel
  have hlisted : Wad.listed wad = entries := by decide +kernel
  have hwad : Wad.ofBytes wad = .ok ⟨wad, entries⟩ :=
    Wad.ofBytes_eq_ok_iff.mpr
      ⟨⟨by decide, by decide, by decide, by decide, by decide⟩, by rw [hlisted]⟩
  obtain ⟨w, hopened, hentries, hlumps, -⟩ := (reads_persist_append wad more).2.2.2 _ hwad
  exact ⟨(reads_persist_append picture more).1 _ hpicture,
    (reads_persist_append textures more).2.1 _ htextures,
    (reads_persist_append names more).2.2.1 _ hnames, hwad, w, hopened, hentries, hlumps 0 _ rfl⟩

end Interlude
