import Mathlib
import Interlude.Proofs.Picture.Decoding

/-!
# Where the columns of a picture lie

A lump stores a picture if its header is at the start, the offsets of the columns come next, and each
offset leads to the runs of its column. Nothing is said of where that is: the columns may lie anywhere, in
any order, over each other, and what else is in the lump does not matter. Every such lump is read as the
picture that it stores.
-/

namespace Interlude

/-! ### Runs -/

/-- The bytes of a run: its row, the number of its pixels, a byte to ignore, the pixels, and another byte
to ignore. -/
def Post.bytes (post : Post) (before after : UInt8) : List UInt8 :=
  post.rowStart.toUInt8 :: .ofNat post.pixels.length :: before :: (post.pixels ++ [after])

/-- Runs that the format has room for. Row 255 would be the end of the column. -/
structure Post.Fits (post : Post) : Prop where
  rowStart_le : post.rowStart ≤ 254
  one_le_length : 1 ≤ post.pixels.length
  length_le : post.pixels.length ≤ 255

/-- The row of a run fits into a byte. -/
theorem Post.Fits.toNat_rowStart {post : Post} (h : post.Fits) :
    post.rowStart.toUInt8.toNat = post.rowStart.toNat := by
  have hle : post.rowStart.toNat ≤ 254 := UInt16.le_iff_toNat_le.mp h.rowStart_le
  rw [UInt16.toNat_toUInt8]
  omega

/-- The row of a run is none that ends a column. -/
theorem Post.Fits.rowStart_ne {post : Post} (h : post.Fits) :
    post.rowStart.toUInt8 ≠ Picture.endOfColumn := by
  intro hend
  have hle : post.rowStart.toNat ≤ 254 := UInt16.le_iff_toNat_le.mp h.rowStart_le
  rw [← h.toNat_rowStart, hend] at hle
  exact absurd hle (by decide)

/-- The row of a run is read back from its byte. -/
theorem Post.Fits.toUInt16_rowStart {post : Post} (h : post.Fits) :
    post.rowStart.toUInt8.toUInt16 = post.rowStart := by
  rw [← UInt16.toNat_inj, UInt8.toNat_toUInt16, h.toNat_rowStart]

namespace Picture

/-- The bytes of a column: runs, one after the other, and the row number that ends the column. -/
inductive IsColumn : List Post → List UInt8 → Prop where
  | done : IsColumn [] [endOfColumn]
  | run (post : Post) (before after : UInt8) {posts : List Post} {bytes : List UInt8} :
      IsColumn posts bytes → IsColumn (post :: posts) (post.bytes before after ++ bytes)

/-- A column has bytes even if it has no runs. -/
theorem IsColumn.ne_nil {posts : List Post} {bytes : List UInt8} (h : IsColumn posts bytes) :
    bytes ≠ [] := by
  cases h with
  | done => exact List.cons_ne_nil _ _
  | run post before after _ => exact List.cons_ne_nil _ _

open Cursor in
/-- A run is read from its bytes. -/
theorem yields_readRun {post : Post} (h : post.Fits) (before after : UInt8) :
    Yields readRun (post.bytes before after) (some (post.rowStart.toUInt8, post.pixels)) := by
  have hcount : (UInt8.ofNat post.pixels.length).toNat = post.pixels.length :=
    UInt8.toNat_ofNat_of_lt' (Nat.lt_succ_of_le h.length_le)
  refine (yields_u8 _).bind ?_
  rw [if_neg h.rowStart_ne]
  refine (yields_u8 _).bind ((yields_skip [before]).bind ?_)
  rw [hcount]
  exact (yields_take post.pixels).bind ((yields_skip [after]).bind (yields_pure _))

open Cursor in
/-- The end of a column is read from its byte. -/
theorem yields_readRun_end : Yields readRun [endOfColumn] none :=
  (yields_u8 _).bind (yields_pure none)

/-- The runs of a column are read from its bytes, if the column has room for all their pixels. -/
theorem columnPosts_of_isColumn {column : UInt16} {posts : List Post} {bytes : List UInt8}
    (h : IsColumn posts bytes) (hfits : ∀ post ∈ posts, post.Fits)
    (hcolumn : ∀ post ∈ posts, post.column = column) {room : Nat}
    (hroom : (posts.flatMap Post.pixels).length ≤ room) {c : Cursor} (hpos : c.pos ≤ c.data.size)
    (hbytes : bytes <+: c.rest) : columnPosts column room c = some posts := by
  induction h generalizing room c with
  | done => rw [columnPosts, yields_readRun_end c hpos hbytes]
  | @run post before after posts bytes _ ih =>
    obtain ⟨hpost, hothers⟩ := List.forall_mem_cons.mp hfits
    obtain ⟨hown, hcolumn⟩ := List.forall_mem_cons.mp hcolumn
    rw [List.flatMap_cons, List.length_append] at hroom
    have hfirst := (List.prefix_append (post.bytes before after) bytes).trans hbytes
    have hself : (⟨column, post.rowStart.toUInt8.toUInt16, post.pixels.take room⟩ : Post) = post := by
      rw [hpost.toUInt16_rowStart, List.take_of_length_le (by omega), ← hown]
    rw [columnPosts, yields_readRun hpost before after c hpos hfirst]
    dsimp only
    rw [dif_neg (Nat.one_le_iff_ne_zero.mp hpost.one_le_length), hself]
    by_cases hfull : room ≤ post.pixels.length
    · -- The column is full, so that no run is left, for none is without pixels.
      have hempty : posts.flatMap Post.pixels = [] := List.eq_nil_of_length_eq_zero (by omega)
      have hnone : posts = [] := by
        refine List.eq_nil_iff_forall_not_mem.mpr fun other hother => ?_
        have hlength := (hothers other hother).one_le_length
        rw [List.flatMap_eq_nil_iff.mp hempty other hother] at hlength
        exact Nat.not_succ_le_zero 0 hlength
      rw [dif_pos hfull, hnone]
    · have hinside := Cursor.add_length_le hpos hfirst
      rw [dif_neg hfull, ih hothers hcolumn (by omega) hinside (Cursor.prefix_rest_advance hbytes),
        Option.map_some]

/-! ### Columns -/

/-- The runs of a column of a picture. -/
def postsOf (p : Picture) (column : UInt16) : List Post :=
  p.posts.filter (·.column == column)

/-- In a list that is sorted by a key, the items with a key come right after those with lesser keys. -/
private theorem filter_lt_append_filter_eq {α : Type} {key : α → Nat} {items : List α}
    (hsorted : items.Pairwise fun item next => key item ≤ key next) (n : Nat) :
    (items.filter fun item => key item < n) ++ (items.filter fun item => key item = n) =
      items.filter fun item => key item < n + 1 := by
  induction items with
  | nil => rfl
  | cons item items ih =>
    obtain ⟨hfirst, hsorted⟩ := List.pairwise_cons.mp hsorted
    by_cases hlt : key item < n
    · have hne : key item ≠ n := Nat.ne_of_lt hlt
      have hnext : key item < n + 1 := Nat.lt_succ_of_lt hlt
      simp only [List.filter_cons, hlt, hne, hnext, decide_true, decide_false, if_true,
        Bool.false_eq_true, if_false, List.cons_append]
      rw [ih hsorted]
    · have hle : ∀ next ∈ item :: items, n ≤ key next := List.forall_mem_cons.mpr
        ⟨not_lt.mp hlt, fun next hnext => (not_lt.mp hlt).trans (hfirst next hnext)⟩
      have hnone : ((item :: items).filter fun item => key item < n) = [] := by
        refine List.filter_eq_nil_iff.mpr fun next hnext => ?_
        simpa using hle next hnext
      rw [hnone, List.nil_append]
      refine List.filter_congr fun next hnext => decide_eq_decide.mpr ?_
      have := hle next hnext
      omega

/-- A list that is sorted by a key is put together again from the items with each key. -/
private theorem flatMap_filter_key {α : Type} {key : α → Nat} {items : List α}
    (hsorted : items.Pairwise fun item next => key item ≤ key next) (n : Nat) :
    ((List.range n).flatMap fun k => items.filter fun item => key item = k) =
      items.filter fun item => key item < n := by
  induction n with
  | zero => simp
  | succ n ih =>
    rw [List.range_succ, List.flatMap_append, ih, List.flatMap_singleton,
      filter_lt_append_filter_eq hsorted]

/-- The runs of a picture whose columns come in order are those of its columns. -/
theorem flatMap_postsOf {p : Picture} (hlt : ∀ post ∈ p.posts, post.column < p.width)
    (hascending : p.posts.Pairwise fun post next => post.column ≤ next.column) :
    ((List.range p.width.toNat).flatMap fun column => p.postsOf (.ofNat column)) = p.posts := by
  have hcolumn : ∀ column ∈ List.range p.width.toNat,
      p.postsOf (.ofNat column) = p.posts.filter fun post => post.column.toNat = column := by
    intro column hcolumn
    have hsize : column < UInt16.size := (List.mem_range.mp hcolumn).trans p.width.toNat_lt
    refine List.filter_congr fun post _ => ?_
    rw [Bool.eq_iff_iff, beq_iff_eq, decide_eq_true_eq, ← UInt16.toNat_inj,
      UInt16.toNat_ofNat_of_lt' hsize]
  have hall : (p.posts.filter fun post => post.column.toNat < p.width.toNat) = p.posts :=
    List.filter_eq_self.mpr fun post hpost =>
      decide_eq_true (UInt16.lt_iff_toNat_lt.mp (hlt post hpost))
  have hsorted : p.posts.Pairwise fun post next => post.column.toNat ≤ next.column.toNat :=
    hascending.imp UInt16.le_iff_toNat_le.mp
  rw [List.flatMap_congr hcolumn, flatMap_filter_key hsorted, hall]

/-! ### Lumps -/

/-- Some bytes lie in a lump from a position on. -/
def LiesAt (lump : ByteArray) (position : Nat) (bytes : List UInt8) : Prop :=
  bytes <+: lump.data.toList.drop position

instance (lump : ByteArray) (position : Nat) (bytes : List UInt8) :
    Decidable (LiesAt lump position bytes) :=
  inferInstanceAs (Decidable (bytes <+: lump.data.toList.drop position))

/-- Bytes, at least one, begin inside the lump in which they lie. -/
theorem LiesAt.le_size {lump : ByteArray} {position : Nat} {bytes : List UInt8}
    (h : LiesAt lump position bytes) (hsome : bytes ≠ []) : position ≤ lump.size := by
  have hlength := h.length_le
  have hpos := List.length_pos_iff.mpr hsome
  have hsize : lump.data.toList.length = lump.size := Array.length_toList
  rw [List.length_drop] at hlength
  omega

/-- What a reader yields from some bytes it gives where they lie. -/
theorem LiesAt.read_eq {α : Type} {read : Reading α} {lump : ByteArray} {position : Nat}
    {bytes : List UInt8} {a : α} (h : LiesAt lump position bytes) (hsome : bytes ≠ [])
    (hread : Cursor.Yields read bytes a) :
    read ⟨lump, position⟩ = .ok (a, ⟨lump, position + bytes.length⟩) :=
  hread ⟨lump, position⟩ (h.le_size hsome) h

/-- The header of a picture. -/
def headerBytes (p : Picture) : List UInt8 :=
  Bytes.toLE 2 p.width.toNat ++ Bytes.toLE 2 p.height.toNat ++
    Bytes.toLE 2 p.left.toUInt16.toNat ++ Bytes.toLE 2 p.top.toUInt16.toNat

/-- Pictures that the format has room for. -/
structure Storable (p : Picture) : Prop where
  one_le_width : 1 ≤ p.width
  width_le : p.width ≤ 32767
  one_le_height : 1 ≤ p.height
  height_le : p.height ≤ 32767
  fits : ∀ post ∈ p.posts, post.Fits
  column_lt : ∀ post ∈ p.posts, post.column < p.width
  ascending : p.posts.Pairwise fun post next => post.column ≤ next.column
  columnPixels_le : ∀ column, p.columnPixels column ≤ p.height.toNat

/-- A lump holds a picture: its header, an offset for each of its columns, and the runs of the column
wherever the offset leads. -/
structure IsStored (lump : ByteArray) (p : Picture) : Prop where
  header : LiesAt lump 0 p.headerBytes
  columns : ∀ column < p.width.toNat, ∃ offset < 2 ^ 31,
    LiesAt lump (headerSize + 4 * column) (Bytes.toLE 4 offset) ∧
    ∃ bytes, IsColumn (p.postsOf (.ofNat column)) bytes ∧ LiesAt lump offset bytes

open Cursor in
/-- The header of a picture is read back. -/
theorem yields_readHeader (p : Picture) : Yields readHeader p.headerBytes
    (p.width.toInt16, p.height.toInt16, p.left, p.top) := by
  rw [headerBytes, List.append_assoc, List.append_assoc,
    ← List.append_nil (Bytes.toLE 2 p.top.toUInt16.toNat)]
  exact (yields_i16 p.width).bind ((yields_i16 p.height).bind
    ((yields_signed16 p.left).bind ((yields_signed16 p.top).bind (yields_pure _))))

/-- The offset of a column is read where it lies. -/
theorem columnOffset?_of_liesAt {lump : ByteArray} {column offset : Nat} (hoffset : offset < 2 ^ 31)
    (h : LiesAt lump (headerSize + 4 * column) (Bytes.toLE 4 offset)) :
    columnOffset? lump column = some offset := by
  have hnat : (UInt32.ofNat offset).toNat = offset :=
    UInt32.toNat_ofNat_of_lt' (hoffset.trans (by decide))
  have hnonneg : 0 ≤ (UInt32.ofNat offset).toInt32 :=
    toInt32_nonneg_iff.mpr (hnat.trans_lt hoffset)
  rw [← hnat] at h
  exact columnOffset?_eq_some_iff.mpr ⟨_, _, h.read_eq (List.cons_ne_nil _ _) (Cursor.yields_i32 _),
    hnonneg, by rw [toNatClampNeg_toInt32 hnonneg, hnat]⟩

/-- The columns of a picture are read from a lump that holds it. -/
theorem IsStored.column?_eq {lump : ByteArray} {p : Picture} (h : IsStored lump p) (hp : p.Storable)
    {column : Nat} (hcolumn : column < p.width.toNat) :
    column? lump p.height.toNat column = some (p.postsOf (.ofNat column)) := by
  obtain ⟨offset, hoffset, htable, bytes, hbytes, hlies⟩ := h.columns column hcolumn
  rw [column?, columnOffset?_of_liesAt hoffset htable, Option.bind_eq_bind, Option.bind_some]
  refine columnPosts_of_isColumn hbytes (fun post hpost => hp.fits post (List.mem_of_mem_filter hpost))
    (fun post hpost => eq_of_beq (List.mem_filter.mp hpost).2) (hp.columnPixels_le _)
    (hlies.le_size hbytes.ne_nil) hlies

/-- Every picture that the format has room for is read from every lump that holds it, wherever in the
lump its columns are. -/
theorem decode_stored {p : Picture} {lump : ByteArray} (hp : p.Storable) (h : IsStored lump p) :
    decode? lump = some p := by
  have hheader := h.header.read_eq (List.cons_ne_nil _ _) (yields_readHeader p)
  have hwidth : p.width.toInt16.toNatClampNeg = p.width.toNat := toNatClampNeg_toInt16 hp.width_le
  have hheight : p.height.toInt16.toNatClampNeg = p.height.toNat := toNatClampNeg_toInt16 hp.height_le
  refine decode?_eq_some_iff.mpr ⟨p.width.toInt16, p.height.toInt16, p.left, p.top, _,
    (List.range p.width.toNat).map fun column => p.postsOf (.ofNat column), hheader,
    toInt16_pos hp.one_le_width hp.width_le, toInt16_pos hp.one_le_height hp.height_le, ?_, ?_⟩
  · rw [hwidth, hheight, List.forall₂_map_right_iff, List.forall₂_same]
    exact fun column hcolumn => h.column?_eq hp (List.mem_range.mp hcolumn)
  · rw [UInt16.toUInt16_toInt16, UInt16.toUInt16_toInt16, ← List.flatMap_def,
      flatMap_postsOf hp.column_lt hp.ascending]

/-- A picture of two columns that share their bytes, behind a byte that belongs to nothing and before
another one. The padding of the run would be the end of a column elsewhere. -/
theorem decode_stored_shared_column :
    let p : Picture := ⟨2, 3, -1, 300, [⟨0, 1, [7, 255]⟩, ⟨1, 1, [7, 255]⟩]⟩
    let lump : ByteArray := ⟨#[2, 0, 3, 0, 255, 255, 44, 1, 17, 0, 0, 0, 17, 0, 0, 0,
      9, 1, 2, 255, 7, 255, 0, 255, 9]⟩
    p.Storable ∧ IsStored lump p ∧ decode? lump = some p := by
  intro p lump
  have hp : p.Storable := by
    refine ⟨by decide, by decide, by decide, by decide, ?_, by decide, by decide, fun column => ?_⟩
    · refine List.forall_mem_cons.mpr ⟨?_, List.forall_mem_singleton.mpr ?_⟩ <;>
        exact ⟨by decide, by decide, by decide⟩
    · by_cases hfirst : column = 0
      · subst hfirst
        decide
      · by_cases hsecond : column = 1
        · subst hsecond
          decide
        · simp [p, columnPixels, Ne.symm hfirst, Ne.symm hsecond]
  have hlump : IsStored lump p := by
    have hruns : LiesAt lump 17 [1, 2, 255, 7, 255, 0, 255] := by decide
    refine ⟨by decide, fun column hcolumn => ⟨17, by decide, ?_⟩⟩
    obtain rfl | rfl := Nat.le_one_iff_eq_zero_or_eq_one.mp (Nat.le_of_lt_succ hcolumn)
    · exact ⟨by decide, _, .run ⟨0, 1, [7, 255]⟩ 255 0 .done, hruns⟩
    · exact ⟨by decide, _, .run ⟨1, 1, [7, 255]⟩ 255 0 .done, hruns⟩
  exact ⟨hp, hlump, decode_stored hp hlump⟩

end Picture
end Interlude
