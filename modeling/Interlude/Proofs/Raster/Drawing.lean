import Mathlib
import Interlude.Proofs.Raster.Coverage

/-!
# Drawing runs within the image

A drawn picture shows at every place the last of its runs that reaches the place. Runs may lie beside
the image or reach past its bottom; to leave out what lies outside, drawing compares columns and rows
before it counts. So numbers of 32 bits are wide enough for all that is counted on the way, for images of
any width and height, and every pixel that is set is a pixel of the array.
-/

namespace Interlude

/-! ### The last run at a place -/

namespace Picture

variable {p : Picture} {post : Post} {x y : Nat}

/-- A run is the last one of a picture that reaches a place. -/
def IsLastAt (p : Picture) (post : Post) (x y : Nat) : Prop :=
  ∃ before after, p.posts = before ++ post :: after ∧ post.Covers x y ∧
    ∀ later ∈ after, ¬ later.Covers x y

/-- A run gives no value to a place that it does not reach. -/
theorem value?_eq_none_of_not_covers (h : ¬ post.Covers x y) : post.value? x y = none := by
  rwa [← Option.not_isSome_iff_eq_none, Post.value?_isSome_iff]

/-- The value at a place is the one that the last run there gives to it. -/
theorem IsLastAt.value?_eq (h : p.IsLastAt post x y) : p.value? x y = post.value? x y := by
  obtain ⟨before, after, hposts, hcovers, hafter⟩ := h
  have hnone : after.reverse.findSome? (·.value? x y) = none := by
    rw [List.findSome?_eq_none_iff]
    exact fun later hlater => value?_eq_none_of_not_covers (hafter later (List.mem_reverse.mp hlater))
  obtain ⟨value, hvalue⟩ := Option.isSome_iff_exists.mp ((post.value?_isSome_iff x y).mpr hcovers)
  simp [value?, hposts, hnone, hvalue]

/-- That is the value of its pixel in the row of the place. -/
theorem IsLastAt.exists_value (h : p.IsLastAt post x y) :
    ∃ value, post.pixels[y - post.rowStart.toNat]? = some value ∧ p.value? x y = some value := by
  obtain ⟨_, _, _, hcovers, _⟩ := id h
  obtain ⟨value, hvalue⟩ := Option.isSome_iff_exists.mp ((post.value?_isSome_iff x y).mpr hcovers)
  refine ⟨value, ?_, h.value?_eq.trans hvalue⟩
  rwa [Post.value?, if_pos ⟨hcovers.1, hcovers.2.1⟩] at hvalue

end Picture

namespace Raster

/-! ### Counting with 32 bits -/

/-- The sum of two numbers of 32 bits, if it is one as well. -/
def sum32? (a b : UInt32) : Option UInt32 :=
  if a.toNat + b.toNat < UInt32.size then some (a + b) else none

/-- The product of two numbers of 32 bits, if it is one as well. -/
def product32? (a b : UInt32) : Option UInt32 :=
  if a.toNat * b.toNat < UInt32.size then some (a * b) else none

/-- An array with another pixel at a place, if the array has the place. -/
def set? (pixels : Array Pixel) (place : UInt32) (pixel : Pixel) : Option (Array Pixel) :=
  if h : place.toNat < pixels.size then some (pixels.set place.toNat pixel h) else none

/-- A sum that is small enough is that of the numbers. -/
theorem exists_sum32? {a b : UInt32} (h : a.toNat + b.toNat < UInt32.size) :
    ∃ c, sum32? a b = some c ∧ c.toNat = a.toNat + b.toNat :=
  ⟨a + b, if_pos h, by rw [UInt32.toNat_add, Nat.mod_eq_of_lt h]⟩

/-- A product that is small enough is that of the numbers. -/
theorem exists_product32? {a b : UInt32} (h : a.toNat * b.toNat < UInt32.size) :
    ∃ c, product32? a b = some c ∧ c.toNat = a.toNat * b.toNat :=
  ⟨a * b, if_pos h, by rw [UInt32.toNat_mul, Nat.mod_eq_of_lt h]⟩

/-- A place of an array can be set. -/
theorem set?_of_lt {pixels : Array Pixel} {place : UInt32} (h : place.toNat < pixels.size)
    (pixel : Pixel) : set? pixels place pixel = some (pixels.setIfInBounds place.toNat pixel) := by
  rw [set?, dif_pos h, Array.setIfInBounds_def, dif_pos h]

/-! ### Drawing with such numbers -/

/-- Draws the pixels of a run from the one with a number on. The number is cut to 32 bits; there is no
outcome where a row or a place has no number of 32 bits or lies outside the array. -/
def countedRun? (palette : Palette) (width height column rowStart : UInt32) :
    (number : Nat) → List UInt8 → Array Pixel → Option (Array Pixel)
  | _, [], pixels => some pixels
  | number, value :: rest, pixels => do
    let row ← sum32? rowStart (.ofNat number)
    if row < height then
      let place ← sum32? (← product32? row width) column
      let pixels ← set? pixels place (.solid (palette.color value))
      countedRun? palette width height column rowStart (number + 1) rest pixels
    else return pixels

/-- Draws a run of a picture with numbers of 32 bits. -/
def countedPost? (palette : Palette) (width height : UInt32) (pixels : Array Pixel) (post : Post) :
    Option (Array Pixel) :=
  if post.column.toUInt32 < width then
    countedRun? palette width height post.column.toUInt32 post.rowStart.toUInt32 0 post.pixels pixels
  else some pixels

/-- Draws the runs of a picture with numbers of 32 bits. -/
def counted? (picture : Picture) (palette : Palette) : Option Raster := do
  let width := picture.width.toUInt32
  let height := picture.height.toUInt32
  let size ← product32? width height
  let pixels ← picture.posts.foldlM (countedPost? palette width height)
    (Array.replicate size.toNat .clear)
  return ⟨width.toNat, height.toNat, pixels⟩

section Counting

variable {palette : Palette} {width height : UInt32}

/-- The places of an image of 16 bits to each side have numbers of 32 bits. -/
theorem sides_mul_lt (hwidth : width.toNat < UInt16.size) (hheight : height.toNat < UInt16.size) :
    width.toNat * height.toNat < UInt32.size := by
  calc width.toNat * height.toNat ≤ 65535 * 65535 :=
        Nat.mul_le_mul (Nat.le_of_lt_succ hwidth) (Nat.le_of_lt_succ hheight)
    _ < UInt32.size := by decide

/-- In such an image the row of a pixel has a number of 32 bits as long as the pixel before it lies above
the bottom, and so has the place of a pixel above the bottom. -/
theorem countedRun?_eq {column rowStart : UInt32} {number : Nat}
    (hwidth : width.toNat < UInt16.size) (hheight : height.toNat < UInt16.size)
    (hcolumn : column < width) (hrow : rowStart.toNat + number < UInt16.size) (values : List UInt8)
    {pixels : Array Pixel} (hsize : pixels.size = width.toNat * height.toNat) :
    countedRun? palette width height column rowStart number values pixels =
      some (drawRun palette width.toNat height.toNat column.toNat (rowStart.toNat + number) values
        pixels) := by
  induction values generalizing number pixels with
  | nil => rfl
  | cons value rest ih =>
    have hnumber : (UInt32.ofNat number).toNat = number :=
      UInt32.toNat_ofNat_of_lt' (by change _ < 4294967296; change _ < 65536 at hrow; omega)
    obtain ⟨row, hsum, hrowNat⟩ := exists_sum32? (a := rowStart) (b := .ofNat number)
      (by rw [hnumber]; exact hrow.trans (by decide))
    rw [hnumber] at hrowNat
    rw [countedRun?, drawRun, hsum, Option.bind_eq_bind, Option.bind_some, ← hrowNat]
    by_cases habove : row < height
    · have hplace : row.toNat * width.toNat + column.toNat < width.toNat * height.toNat :=
        place_lt (UInt32.lt_iff_toNat_lt.mp hcolumn) (UInt32.lt_iff_toNat_lt.mp habove)
      have hroom := sides_mul_lt hwidth hheight
      obtain ⟨start, hproduct, hstart⟩ := exists_product32? (a := row) (b := width) (by omega)
      obtain ⟨place, hplaceSum, hplaceNat⟩ := exists_sum32? (a := start) (b := column) (by omega)
      rw [hstart] at hplaceNat
      have hset : set? pixels place (.solid (palette.color value)) =
          some (pixels.setIfInBounds place.toNat (.solid (palette.color value))) :=
        set?_of_lt (by omega) _
      have hnext : rowStart.toNat + (number + 1) < UInt16.size := by
        have := UInt32.lt_iff_toNat_lt.mp habove
        omega
      rw [if_pos habove, if_pos (UInt32.lt_iff_toNat_lt.mp habove), hproduct]
      simp only [Option.bind_eq_bind, Option.bind_some, hplaceSum, hset]
      rw [ih hnext (by rw [Array.size_setIfInBounds, hsize]), hplaceNat, ← Nat.add_assoc, ← hrowNat]
    · rw [if_neg habove, if_neg (fun h => habove (UInt32.lt_iff_toNat_lt.mpr h))]
      rfl

/-- A run of a picture is drawn in the same way with numbers of 32 bits. -/
theorem countedPost?_eq (hwidth : width.toNat < UInt16.size) (hheight : height.toNat < UInt16.size)
    (post : Post) {pixels : Array Pixel} (hsize : pixels.size = width.toNat * height.toNat) :
    countedPost? palette width height pixels post =
      some (drawPost palette width.toNat height.toNat pixels post) := by
  have hcolumn : post.column.toUInt32.toNat = post.column.toNat := UInt16.toNat_toUInt32 _
  have hrow : post.rowStart.toUInt32.toNat = post.rowStart.toNat := UInt16.toNat_toUInt32 _
  rw [countedPost?, drawPost]
  by_cases hbeside : post.column.toUInt32 < width
  · have hlt := UInt32.lt_iff_toNat_lt.mp hbeside
    rw [if_pos hbeside, if_pos (hcolumn ▸ hlt),
      countedRun?_eq hwidth hheight hbeside (hrow ▸ post.rowStart.toNat_lt) post.pixels hsize, hcolumn,
      hrow, Nat.add_zero]
  · rw [if_neg hbeside, if_neg fun h => hbeside (UInt32.lt_iff_toNat_lt.mpr (hcolumn ▸ h))]

/-- So are the runs of a picture. -/
theorem foldlM_countedPost?_eq (hwidth : width.toNat < UInt16.size)
    (hheight : height.toNat < UInt16.size) (posts : List Post) {pixels : Array Pixel}
    (hsize : pixels.size = width.toNat * height.toNat) :
    posts.foldlM (countedPost? palette width height) pixels =
      some (posts.foldl (drawPost palette width.toNat height.toNat) pixels) := by
  induction posts generalizing pixels with
  | nil => rfl
  | cons post rest ih =>
    rw [List.foldlM_cons, List.foldl_cons, countedPost?_eq hwidth hheight post hsize,
      Option.bind_eq_bind, Option.bind_some, ih (by rw [size_drawPost, hsize])]

end Counting

/-- Numbers of 32 bits are enough to draw any picture. -/
theorem counted?_eq (picture : Picture) (palette : Palette) :
    counted? picture palette = some (ofPicture picture palette) := by
  have hwidth : picture.width.toUInt32.toNat = picture.width.toNat := UInt16.toNat_toUInt32 _
  have hheight : picture.height.toUInt32.toNat = picture.height.toNat := UInt16.toNat_toUInt32 _
  have hwidthLt : picture.width.toUInt32.toNat < UInt16.size := hwidth ▸ picture.width.toNat_lt
  have hheightLt : picture.height.toUInt32.toNat < UInt16.size := hheight ▸ picture.height.toNat_lt
  obtain ⟨size, hproduct, hsize⟩ := exists_product32? (sides_mul_lt hwidthLt hheightLt)
  have hdrawn : picture.posts.foldlM
      (countedPost? palette picture.width.toUInt32 picture.height.toUInt32)
      (Array.replicate size.toNat .clear) = some _ :=
    foldlM_countedPost?_eq hwidthLt hheightLt picture.posts (by rw [Array.size_replicate, hsize])
  simp only [counted?, hproduct, Option.bind_eq_bind, Option.bind_some, hdrawn]
  rw [hsize, hwidth, hheight]
  rfl

/-- A drawn picture has a pixel for every place of its canvas. The pixel has the colour that the palette
gives to the last run that reaches the place, and is opaque; where no run reaches, it is transparent. All
rows and places that drawing counts on the way are numbers of 32 bits, and all pixels that it sets lie in
the array. -/
theorem ofPicture_draws_runs (picture : Picture) (palette : Palette) :
    let r := ofPicture picture palette
    (r.width = picture.width.toNat ∧ r.height = picture.height.toNat ∧
      r.pixels.size = picture.width.toNat * picture.height.toNat) ∧
    (∀ x y, x < picture.width.toNat → y < picture.height.toNat →
      (∀ post, picture.IsLastAt post x y →
        ∃ value, post.pixels[y - post.rowStart.toNat]? = some value ∧
          r.pixel? x y = some ⟨palette.color value, 255⟩) ∧
      ((∀ post ∈ picture.posts, ¬ post.Covers x y) → r.pixel? x y = some ⟨.black, 0⟩)) ∧
    counted? picture palette = some r := by
  intro r
  refine ⟨⟨rfl, rfl, size_ofPicture palette picture⟩, fun x y hx hy => ⟨fun post hlast => ?_, ?_⟩,
    counted?_eq picture palette⟩
  · obtain ⟨value, hvalue, hshown⟩ := hlast.exists_value
    refine ⟨value, hvalue, ?_⟩
    rw [pixel?_ofPicture palette picture hx hy, hshown]
    rfl
  · intro hnone
    have hvalue : picture.value? x y = none := by
      rw [← Option.not_isSome_iff_eq_none, Picture.value?_isSome_iff]
      rintro ⟨post, hpost, hcovers⟩
      exact hnone post hpost hcovers
    rw [pixel?_ofPicture palette picture hx hy, hvalue]
    rfl

/-- Two runs that lie over each other, of which the second one reaches past the bottom, before a run
beside the image: the place that both reach shows the second one. -/
theorem ofPicture_draws_runs_over_each_other :
    let lower : Post := ⟨1, 0, [1, 2]⟩
    let upper : Post := ⟨1, 1, [3, 4, 5, 6]⟩
    let beside : Post := ⟨2, 0, [7, 7]⟩
    let picture : Picture := ⟨2, 3, 0, 0, [lower, upper, beside]⟩
    lower.Covers 1 1 ∧ picture.IsLastAt upper 1 1 ∧
      (ofPicture picture .grayscale).pixel? 1 1 = some ⟨⟨3, 3, 3⟩, 255⟩ ∧
      (ofPicture picture .grayscale).pixel? 0 1 = some ⟨.black, 0⟩ := by
  intro lower upper beside picture
  have hlower : lower.Covers 1 1 := ⟨rfl, by decide, by decide⟩
  have hupper : picture.IsLastAt upper 1 1 := by
    refine ⟨[lower], [beside], rfl, ⟨rfl, by decide, by decide⟩, ?_⟩
    rintro later hlater ⟨hcolumn, -⟩
    rw [List.mem_singleton.mp hlater] at hcolumn
    exact absurd hcolumn (by decide)
  have hnone : ∀ post ∈ picture.posts, ¬ post.Covers 0 1 := by
    rintro post hpost ⟨hcolumn, -⟩
    have hcolumns : ∀ post ∈ picture.posts, post.column.toNat ≠ 0 := by decide
    exact hcolumns post hpost hcolumn
  obtain ⟨-, hplaces, -⟩ := ofPicture_draws_runs picture .grayscale
  obtain ⟨value, hvalue, hshown⟩ := (hplaces 1 1 (by decide) (by decide)).1 upper hupper
  obtain rfl : value = 3 := (Option.some.inj hvalue).symm
  rw [show Palette.grayscale.color 3 = ⟨3, 3, 3⟩ by decide +kernel] at hshown
  exact ⟨hlower, hupper, hshown, (hplaces 0 1 (by decide) (by decide)).2 hnone⟩

end Raster

end Interlude
