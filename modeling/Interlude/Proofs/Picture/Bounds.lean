import Mathlib
import Interlude.Proofs.Picture.Layout

/-!
# Pictures that are read keep within the format

The offsets of a lump may lead anywhere, into other columns or into the header. Whatever the bytes say, a
picture that is read from them is one that the format has room for: its columns come in order, each run
has between 1 and 255 pixels, and no column has more pixels than the picture is high. That last bound is
kept run by run: the room that is left in a column is the height less what its runs have taken so far, and
they never take more than the height.
-/

namespace Interlude.Picture

variable {c c' : Cursor} {column : UInt16} {posts : List Post}

/-! ### Runs of a column -/

/-- A run that is read does not start with the end of the column, and its pixels were counted by a byte. -/
theorem le_of_readRun {row : UInt8} {pixels : List UInt8}
    (h : readRun c = .ok (some (row, pixels), c')) : row ≤ 254 ∧ pixels.length ≤ 255 := by
  obtain ⟨first, mid, -, h⟩ := Cursor.bind_eq_ok_iff.mp h
  split at h
  · cases h
  · rename_i hrow
    obtain ⟨count, _, -, h⟩ := Cursor.bind_eq_ok_iff.mp h
    obtain ⟨_, _, -, h⟩ := Cursor.bind_eq_ok_iff.mp h
    obtain ⟨taken, _, htaken, h⟩ := Cursor.bind_eq_ok_iff.mp h
    obtain ⟨_, _, -, h⟩ := Cursor.bind_eq_ok_iff.mp h
    obtain ⟨hpost, -⟩ := Cursor.pure_eq_ok_iff.mp h
    obtain ⟨rfl, rfl⟩ := Prod.mk.inj (Option.some.inj hpost)
    obtain ⟨-, rfl, -⟩ := Cursor.take_eq_ok_iff.mp htaken
    constructor
    · have hlt := row.toNat_lt
      have hne : row.toNat ≠ 255 := fun hend => hrow (UInt8.toNat_inj.mp hend)
      rw [UInt8.le_iff_toNat_le]
      change row.toNat ≤ 254
      omega
    · have hcount := count.toNat_lt
      exact (List.length_take_le _ _).trans (by omega)

/-- Cut to a room that is not empty, such a run fits if it has pixels. -/
theorem fits_of_readRun {row : UInt8} {pixels : List UInt8} {room : Nat}
    (h : readRun c = .ok (some (row, pixels), c')) (hpixels : pixels.length ≠ 0) (hroom : 0 < room) :
    (⟨column, row.toUInt16, pixels.take room⟩ : Post).Fits := by
  obtain ⟨hrow, hlength⟩ := le_of_readRun h
  have hrow : row.toNat ≤ 254 := UInt8.le_iff_toNat_le.mp hrow
  constructor
  · rw [UInt16.le_iff_toNat_le, UInt8.toNat_toUInt16]
    exact hrow
  · rw [List.length_take]
    omega
  · exact (List.length_take_le' _ _).trans hlength

/-- The runs of a column belong to it and fit. -/
theorem fits_of_columnPosts {room : Nat} (h : columnPosts column room c = some posts)
    (hroom : 0 < room) : ∀ post ∈ posts, post.column = column ∧ post.Fits := by
  fun_induction columnPosts column room c generalizing posts with
  | case1 => contradiction
  | case2 =>
    cases h
    exact List.forall_mem_nil _
  | case3 => contradiction
  | case4 room c row pixels c' hread hpixels post =>
    cases h
    exact List.forall_mem_singleton.mpr ⟨rfl, fits_of_readRun hread hpixels hroom⟩
  | case5 room c row pixels c' hread hpixels post _ =>
    rename_i ih
    obtain ⟨others, hothers, rfl⟩ := Option.map_eq_some_iff.mp h
    have hfits : post.Fits := fits_of_readRun hread hpixels hroom
    exact List.forall_mem_cons.mpr ⟨⟨rfl, hfits⟩, ih hothers (by omega)⟩

/-- The runs of a column do not take more than the room there is. -/
theorem length_columnPosts_le {room : Nat} (h : columnPosts column room c = some posts) :
    (posts.flatMap Post.pixels).length ≤ room := by
  fun_induction columnPosts column room c generalizing posts with
  | case1 => contradiction
  | case2 =>
    cases h
    exact Nat.zero_le _
  | case3 => contradiction
  | case4 room c row pixels c' hread hpixels post =>
    cases h
    simp [post]
  | case5 room c row pixels c' hread hpixels post _ =>
    rename_i ih
    obtain ⟨others, hothers, rfl⟩ := Option.map_eq_some_iff.mp h
    have hlength := ih hothers
    have htaken : post.pixels.length ≤ pixels.length := List.length_take_le' _ _
    rw [List.flatMap_cons, List.length_append]
    omega

/-! ### Counting the pixels of a column -/

/-- The runs of a column as they are counted: `total` pixels are taken, and the room that is left is the
height less the total. If there were no such number, there would be no outcome at all. -/
def countedPosts (column : UInt16) (height total : Nat) (c : Cursor) : Option (Option (List Post)) :=
  match readRun c with
  | .error _ => some none
  | .ok (none, _) => some (some [])
  | .ok (some (row, pixels), c') =>
    if pixels.length = 0 then some none
    else
      match _ : height.psub total with
      | none => none
      | some room =>
        let taken := min pixels.length room
        let post : Post := ⟨column, row.toUInt16, pixels.take taken⟩
        if _ : taken < pixels.length ∨ total + taken = height then some (some [post])
        else (countedPosts column height (total + taken) c').map (Option.map (post :: ·))
termination_by height - total
decreasing_by
  have hsum := Nat.psub_eq_some.mp ‹height.psub total = some room›
  omega

/-- As long as no more than the height is taken, the height less the total exists, and what is taken from
the room that is left keeps it so. -/
theorem countedPosts_eq {height total : Nat} (h : total ≤ height) :
    countedPosts column height total c = some (columnPosts column (height - total) c) := by
  fun_induction countedPosts column height total c with
  | case1 total c e hread => rw [columnPosts, hread]
  | case2 total c c' hread => rw [columnPosts, hread]
  | case3 total c row pixels c' hread hnone => simp [columnPosts, hread, hnone]
  | case4 total c row pixels c' hread hsome hunder =>
    exact absurd (Nat.psub_eq_none.mp hunder) (Nat.not_lt.mpr h)
  | case5 total c row pixels c' hread hsome room hroom taken post =>
    rename_i hlast
    have hsum := Nat.psub_eq_some.mp hroom
    have hfull : height - total ≤ pixels.length := by omega
    have htaken : pixels.take taken = pixels.take (height - total) := by
      rw [show taken = height - total by omega]
    rw [columnPosts, hread]
    dsimp only
    rw [dif_neg hsome, dif_pos hfull, ← htaken]
  | case6 total c row pixels c' hread hsome room hroom taken post =>
    rename_i hmore ih
    have hsum := Nat.psub_eq_some.mp hroom
    obtain ⟨hall, hleft⟩ := not_or.mp hmore
    have htaken : taken = pixels.length := by omega
    have hroomy : ¬ height - total ≤ pixels.length := by omega
    have hpost : post = ⟨column, row.toUInt16, pixels.take (height - total)⟩ := by
      rw [List.take_of_length_le (by omega), ← List.take_length (l := pixels), ← htaken]
    rw [ih (by omega)]
    conv_rhs => rw [columnPosts, hread]
    dsimp only
    rw [dif_neg hsome, dif_neg hroomy, ← hpost, htaken, Nat.sub_sub, Option.map_some]

/-! ### The columns of a picture -/

/-- What a column of a picture is read as has the number of the column, fits, and takes no more pixels than
the picture is high. -/
theorem of_column? {lump : ByteArray} {height k : Nat} (hheight : 0 < height)
    (h : column? lump height k = some posts) :
    (∀ post ∈ posts, post.column = .ofNat k ∧ post.Fits) ∧
      (posts.flatMap Post.pixels).length ≤ height := by
  obtain ⟨offset, -, hposts⟩ := Option.bind_eq_some_iff.mp h
  exact ⟨fits_of_columnPosts hposts hheight, length_columnPosts_le hposts⟩

/-- Columns that could all be read are those that one function gives. -/
theorem exists_columns {lump : ByteArray} {height n : Nat} {columns : List (List Post)}
    (h : List.Forall₂ (fun column posts => column? lump height column = some posts)
      (List.range n) columns) :
    ∃ f : Nat → List Post, columns.flatten = (List.range n).flatMap f ∧
      ∀ k < n, column? lump height k = some (f k) := by
  let f := fun column => (column? lump height column).getD []
  have hmap : (List.range n).map f = columns := by
    refine List.forall₂_eq_eq_eq ▸ List.forall₂_map_left_iff.mpr (h.imp fun column posts hposts => ?_)
    simp [f, hposts]
  rw [← hmap, List.forall₂_map_right_iff, List.forall₂_same] at h
  exact ⟨f, by rw [← hmap, List.flatMap_def], fun k hk => h k (List.mem_range.mpr hk)⟩

section Columns

variable {f : Nat → List Post} {n : Nat}

/-- Columns that are numbered as they come are in order. -/
theorem pairwise_flatMap_range (hn : n ≤ UInt16.size)
    (hf : ∀ k < n, ∀ post ∈ f k, post.column = .ofNat k) :
    ((List.range n).flatMap f).Pairwise fun post next => post.column ≤ next.column := by
  refine List.pairwise_flatMap.mpr ⟨fun k hk => ?_, ?_⟩
  · have hk := List.mem_range.mp hk
    refine List.pairwise_of_forall_mem_list fun post hpost next hnext => UInt16.le_of_eq ?_
    rw [hf k hk post hpost, hf k hk next hnext]
  · refine List.pairwise_lt_range.imp_of_mem fun {i j} hi hj hlt post hpost next hnext => ?_
    have hi := List.mem_range.mp hi
    have hj := List.mem_range.mp hj
    rw [hf i hi post hpost, hf j hj next hnext, UInt16.le_iff_toNat_le,
      UInt16.toNat_ofNat_of_lt' (hi.trans_le hn), UInt16.toNat_ofNat_of_lt' (hj.trans_le hn)]
    exact hlt.le

/-- The runs of a column are those that were read for its number. -/
theorem filter_flatMap_range (hn : n ≤ UInt16.size)
    (hf : ∀ k < n, ∀ post ∈ f k, post.column = .ofNat k) (column : UInt16) :
    ((List.range n).flatMap f).filter (·.column == column) =
      if column.toNat < n then f column.toNat else [] := by
  induction n with
  | zero => rfl
  | succ n ih =>
    have hlast : ∀ post ∈ f n, post.column = .ofNat n := hf n n.lt_succ_self
    have hnumber : (UInt16.ofNat n).toNat = n := UInt16.toNat_ofNat_of_lt' hn
    rw [List.range_succ, List.flatMap_append, List.flatMap_singleton, List.filter_append,
      ih (Nat.le_of_succ_le hn) fun k hk => hf k (Nat.lt_succ_of_lt hk)]
    by_cases hown : column = .ofNat n
    · have hall : (f n).filter (·.column == column) = f n :=
        List.filter_eq_self.mpr fun post hpost => beq_iff_eq.mpr ((hlast post hpost).trans hown.symm)
      have hcolumn : column.toNat = n := by rw [hown, hnumber]
      rw [hall, hcolumn, if_neg (Nat.lt_irrefl n), if_pos n.lt_succ_self, List.nil_append]
    · have hnone : (f n).filter (·.column == column) = [] :=
        List.filter_eq_nil_iff.mpr fun post hpost heq =>
          hown ((beq_iff_eq.mp heq).symm.trans (hlast post hpost))
      have hne : column.toNat ≠ n := fun heq => hown (by rw [← heq, UInt16.ofNat_toNat])
      rw [hnone, List.append_nil]
      exact if_congr (by omega) rfl rfl

end Columns

/-! ### Pictures -/

/-- A positive number of two bytes with a sign counts as much as without one. -/
theorem toNat_toUInt16_of_pos {n : Int16} (h : 0 < n) : n.toUInt16.toNat = n.toNatClampNeg := by
  have hpos : 0 < n.toInt := Int16.lt_iff_toInt_lt.mp h
  have hsigned := BitVec.toInt_eq_toNat_cond n.toBitVec
  have hlt := n.toBitVec.isLt
  rw [Int16.toInt_toBitVec] at hsigned
  rw [← Int16.toNat_toInt]
  change n.toBitVec.toNat = _
  split at hsigned <;> omega

/-- Then it is at least one and at most 32767. -/
theorem toUInt16_bounds_of_pos {n : Int16} (h : 0 < n) : 1 ≤ n.toUInt16 ∧ n.toUInt16 ≤ 32767 := by
  have hlt := n.toNatClampNeg_lt
  have hpos : 0 < n.toNatClampNeg := (Int16.toNatClampNeg_pos_iff n).mpr h
  rw [UInt16.le_iff_toNat_le, UInt16.le_iff_toNat_le, toNat_toUInt16_of_pos h]
  exact ⟨hpos, Nat.le_of_lt_succ hlt⟩

/-- A picture whose columns were read one by one, from a header that gives a size, is one that the format
has room for. -/
theorem storable_of_columns {lump : ByteArray} {width height left top : Int16}
    {columns : List (List Post)} (hwidth : 0 < width) (hheight : 0 < height)
    (h : List.Forall₂ (fun column posts => column? lump height.toNatClampNeg column = some posts)
      (List.range width.toNatClampNeg) columns) :
    Storable ⟨width.toUInt16, height.toUInt16, left, top, columns.flatten⟩ := by
  obtain ⟨hone, hwidthLe⟩ := toUInt16_bounds_of_pos hwidth
  obtain ⟨honeHeight, hheightLe⟩ := toUInt16_bounds_of_pos hheight
  have hrows : 0 < height.toNatClampNeg := (Int16.toNatClampNeg_pos_iff height).mpr hheight
  have hsize : width.toNatClampNeg ≤ UInt16.size := width.toNatClampNeg_lt.le.trans (by decide)
  obtain ⟨f, hposts, hread⟩ := exists_columns h
  have hof : ∀ k < width.toNatClampNeg, (∀ post ∈ f k, post.column = .ofNat k ∧ post.Fits) ∧
      ((f k).flatMap Post.pixels).length ≤ height.toNatClampNeg :=
    fun k hk => of_column? hrows (hread k hk)
  have hown : ∀ k < width.toNatClampNeg, ∀ post ∈ f k, post.column = .ofNat k :=
    fun k hk post hpost => ((hof k hk).1 post hpost).1
  rw [hposts]
  refine ⟨hone, hwidthLe, honeHeight, hheightLe, fun post hpost => ?_, fun post hpost => ?_,
    pairwise_flatMap_range hsize hown, fun column => ?_⟩
  · obtain ⟨k, hk, hpost⟩ := List.mem_flatMap.mp hpost
    exact ((hof k (List.mem_range.mp hk)).1 post hpost).2
  · obtain ⟨k, hk, hpost⟩ := List.mem_flatMap.mp hpost
    have hk := List.mem_range.mp hk
    rw [hown k hk post hpost, UInt16.lt_iff_toNat_lt, UInt16.toNat_ofNat_of_lt' (hk.trans_le hsize),
      toNat_toUInt16_of_pos hwidth]
    exact hk
  · rw [columnPixels, filter_flatMap_range hsize hown, toNat_toUInt16_of_pos hheight]
    split
    · rename_i hcolumn
      exact (hof _ hcolumn).2
    · exact Nat.zero_le _

/-- Whatever the bytes of a lump are, a picture that is read from them is one that the format has room for,
and in every column that is read from them, from whatever offset and up to whatever height, the height less
the pixels that are taken so far is a number. -/
theorem decode?_keeps_bounds (lump : ByteArray) :
    (∀ p, decode? lump = some p → p.Storable) ∧
      ∀ column height offset, countedPosts column height 0 ⟨lump, offset⟩ =
        some (columnPosts column height ⟨lump, offset⟩) := by
  refine ⟨fun p h => ?_, fun column height offset => countedPosts_eq (Nat.zero_le height)⟩
  obtain ⟨width, height, left, top, c, columns, -, hwidth, hheight, hcolumns, rfl⟩ :=
    decode?_eq_some_iff.mp h
  exact storable_of_columns hwidth hheight hcolumns

/-- A lump whose second column lies over the header and the offsets, and whose first one is cut where it
reaches the height. -/
theorem decode?_keeps_bounds_over_header :
    let lump : ByteArray := ⟨#[2, 0, 2, 0, 7, 2, 0, 9, 16, 0, 0, 0, 4, 0, 0, 0, 254, 3, 0, 1, 2, 3, 0]⟩
    let p : Picture := ⟨2, 2, 519, 2304, [⟨0, 254, [1, 2]⟩, ⟨1, 7, [9, 16]⟩]⟩
    decode? lump = some p ∧ p.Storable := by
  intro lump p
  have hread : decode? lump = some p := by decide +kernel
  exact ⟨hread, (decode?_keeps_bounds lump).1 p hread⟩

end Interlude.Picture
