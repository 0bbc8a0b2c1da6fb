import Mathlib
import Interlude.Raster

/-!
# Which run a pixel shows

Drawing paints the runs of a picture one over the other. A pixel of the result therefore shows the
last run that reaches it, and a pixel that no run reaches stays clear. Runs beside or below the image
reach none of its pixels; the place in the row-major array determines column and row.
-/

namespace Interlude

/-- The value that a run gives to a place, if the run reaches it. -/
def Post.value? (p : Post) (x y : Nat) : Option UInt8 :=
  if p.column.toNat = x ∧ p.rowStart.toNat ≤ y then p.pixels[y - p.rowStart.toNat]? else none

/-- A run reaches the places of its column from its first row on, as many as it has pixels. -/
def Post.Covers (p : Post) (x y : Nat) : Prop :=
  p.column.toNat = x ∧ p.rowStart.toNat ≤ y ∧ y < p.rowStart.toNat + p.pixels.length

/-- The value that the last run to reach a place gives to it. -/
def Picture.value? (p : Picture) (x y : Nat) : Option UInt8 :=
  p.posts.reverse.findSome? (·.value? x y)

/-- The pixel that a value shows; without a value it is clear. -/
def Palette.pixel (palette : Palette) (value : Option UInt8) : Pixel :=
  (value.map fun v => .solid (palette.color v)).getD .clear

/-- A pixel with a value is opaque and one without is transparent. -/
theorem Palette.alpha_pixel (palette : Palette) (value : Option UInt8) :
    ((palette.pixel value).alpha = 255 ↔ value.isSome) ∧
      ((palette.pixel value).alpha = 0 ↔ ¬ value.isSome) := by
  cases value <;> simp [Palette.pixel, Pixel.clear, Pixel.solid]

/-- A run gives a value to exactly the places that it reaches. -/
theorem Post.value?_isSome_iff (p : Post) (x y : Nat) : (p.value? x y).isSome ↔ p.Covers x y := by
  unfold Post.value? Post.Covers
  split
  · simp only [List.getElem?_eq_some_iff, Option.isSome_iff_exists]
    constructor
    · rintro ⟨_, hlt, _⟩
      omega
    · rintro ⟨_, _, hlt⟩
      exact ⟨_, by omega, rfl⟩
  · rename_i hbeside
    simp only [Option.isSome_none, Bool.false_eq_true, false_iff]
    exact fun hcovers => hbeside ⟨hcovers.1, hcovers.2.1⟩

/-- A place has a value exactly if some run reaches it. -/
theorem Picture.value?_isSome_iff (p : Picture) (x y : Nat) :
    (p.value? x y).isSome ↔ ∃ post ∈ p.posts, post.Covers x y := by
  simp only [Picture.value?, List.findSome?_isSome_iff, List.mem_reverse, Post.value?_isSome_iff]

namespace Raster

variable (palette : Palette) {width height : Nat}

/-- Different places of an image have different numbers in its array. -/
private theorem place_eq_iff {x y x' y' : Nat} (hx : x < width) (hx' : x' < width) :
    y' * width + x' = y * width + x ↔ x' = x ∧ y' = y := by
  constructor
  · intro h
    have hcolumn : x' = x := by
      have := congrArg (· % width) h
      simpa [Nat.mod_eq_of_lt hx, Nat.mod_eq_of_lt hx'] using this
    subst hcolumn
    have hpos : 0 < width := by omega
    exact ⟨rfl, Nat.eq_of_mul_eq_mul_right hpos (by omega)⟩
  · rintro ⟨rfl, rfl⟩
    rfl

/-- A place of an image lies inside its array. -/
theorem place_lt {x y : Nat} (hx : x < width) (hy : y < height) :
    y * width + x < width * height := by
  calc y * width + x < y * width + width := by omega
    _ = (y + 1) * width := by rw [Nat.add_mul, Nat.one_mul]
    _ ≤ height * width := Nat.mul_le_mul_right width hy
    _ = width * height := Nat.mul_comm _ _

/-- Drawing a run changes no size. -/
@[simp] theorem size_drawRun (column row : Nat) (values : List UInt8) (pixels : Array Pixel) :
    (drawRun palette width height column row values pixels).size = pixels.size := by
  induction values generalizing row pixels with
  | nil => rfl
  | cons value rest ih =>
    rw [drawRun]
    split
    · rw [ih, Array.size_setIfInBounds]
    · rfl

/-- Drawing a run of a picture changes no size. -/
@[simp] theorem size_drawPost (pixels : Array Pixel) (post : Post) :
    (drawPost palette width height pixels post).size = pixels.size := by
  unfold drawPost
  split
  · exact size_drawRun palette _ _ _ _
  · rfl

/-- After a run is drawn from a row on, the pixels that it reaches show it, and no other pixel has
changed. -/
theorem getElem?_drawRun {column row x y : Nat} (hcolumn : column < width) (hx : x < width)
    (hy : y < height) (values : List UInt8) (pixels : Array Pixel)
    (hsize : pixels.size = width * height) :
    (drawRun palette width height column row values pixels)[y * width + x]? =
      ((if column = x ∧ row ≤ y then values[y - row]? else none).map
        fun v => .solid (palette.color v)).or pixels[y * width + x]? := by
  induction values generalizing row pixels with
  | nil => simp [drawRun]
  | cons value rest ih =>
    rw [drawRun]
    by_cases hrow : row < height
    · rw [if_pos hrow, ih _ (by rw [Array.size_setIfInBounds, hsize])]
      have hplace : row * width + column = y * width + x ↔ column = x ∧ row = y :=
        place_eq_iff hx hcolumn
      by_cases hhere : column = x ∧ row = y
      · obtain ⟨rfl, rfl⟩ := hhere
        have hlt : row * width + column < width * height := place_lt hcolumn hrow
        simp [hsize, hlt]
      · rw [Array.getElem?_setIfInBounds_ne (by rw [Ne, hplace]; exact hhere)]
        by_cases hbelow : column = x ∧ row + 1 ≤ y
        · have hnext : y - row = (y - (row + 1)) + 1 := by omega
          rw [if_pos hbelow, if_pos ⟨hbelow.1, by omega⟩, hnext, List.getElem?_cons_succ]
        · rw [if_neg hbelow, if_neg (by omega)]
    · rw [if_neg hrow, if_neg (by omega)]
      rfl

/-- After a run of a picture is drawn, the pixels that it reaches show it, and no other pixel has
changed. -/
theorem getElem?_drawPost {x y : Nat} (hx : x < width) (hy : y < height) (post : Post)
    (pixels : Array Pixel) (hsize : pixels.size = width * height) :
    (drawPost palette width height pixels post)[y * width + x]? =
      ((post.value? x y).map fun v => .solid (palette.color v)).or pixels[y * width + x]? := by
  unfold drawPost Post.value?
  split
  · rename_i hcolumn
    exact getElem?_drawRun palette hcolumn hx hy post.pixels pixels hsize
  · rw [if_neg (by omega)]
    rfl

/-- After runs are drawn one over the other, a pixel shows the last of them that reaches it. -/
theorem getElem?_foldl_drawPost {x y : Nat} (hx : x < width) (hy : y < height) (posts : List Post)
    (pixels : Array Pixel) (hsize : pixels.size = width * height) :
    (posts.foldl (drawPost palette width height) pixels)[y * width + x]? =
      ((posts.reverse.findSome? (·.value? x y)).map fun v => .solid (palette.color v)).or
        pixels[y * width + x]? := by
  induction posts generalizing pixels with
  | nil => rfl
  | cons post rest ih =>
    rw [List.foldl_cons, ih _ (by rw [size_drawPost, hsize]),
      getElem?_drawPost palette hx hy post pixels hsize, List.reverse_cons,
      List.findSome?_append, List.findSome?_singleton, Option.map_or, Option.or_assoc]

variable (picture : Picture)

@[simp] theorem width_ofPicture : (ofPicture picture palette).width = picture.width.toNat := rfl

@[simp] theorem height_ofPicture : (ofPicture picture palette).height = picture.height.toNat := rfl

/-- A drawn picture has a pixel for every place of the canvas. -/
theorem size_ofPicture :
    (ofPicture picture palette).pixels.size = picture.width.toNat * picture.height.toNat := by
  suffices hfold : ∀ (posts : List Post) (pixels : Array Pixel),
      (posts.foldl (drawPost palette picture.width.toNat picture.height.toNat) pixels).size =
        pixels.size by
    exact (hfold _ _).trans Array.size_replicate
  intro posts
  induction posts with
  | nil => exact fun _ => rfl
  | cons post rest ih => exact fun pixels => (ih _).trans (size_drawPost palette pixels post)

/-- A pixel of a drawn picture shows the last run that reaches its place. -/
theorem pixel?_ofPicture {x y : Nat} (hx : x < picture.width.toNat)
    (hy : y < picture.height.toNat) :
    (ofPicture picture palette).pixel? x y = some (palette.pixel (picture.value? x y)) := by
  have hblank : (Array.replicate (picture.width.toNat * picture.height.toNat) Pixel.clear)[
      y * picture.width.toNat + x]? = some Pixel.clear := by
    rw [Array.getElem?_replicate, if_pos (place_lt hx hy)]
  have hdrawn := getElem?_foldl_drawPost palette hx hy picture.posts
    (Array.replicate (picture.width.toNat * picture.height.toNat) Pixel.clear) Array.size_replicate
  rw [hblank] at hdrawn
  refine hdrawn.trans ?_
  unfold Palette.pixel Picture.value?
  cases picture.posts.reverse.findSome? (·.value? x y) <;> rfl

/-- Every pixel of a drawn picture shows a value, or none. -/
theorem exists_eq_pixel_of_mem_ofPicture {p : Pixel} (hp : p ∈ (ofPicture picture palette).pixels) :
    ∃ value, p = palette.pixel value := by
  obtain ⟨i, hi, rfl⟩ := Array.mem_iff_getElem.mp hp
  rw [size_ofPicture] at hi
  have hwidth : 0 < picture.width.toNat := Nat.pos_of_mul_pos_right (Nat.zero_lt_of_lt hi)
  have hx := Nat.mod_lt i hwidth
  have hy : i / picture.width.toNat < picture.height.toNat := Nat.div_lt_of_lt_mul hi
  have hshown := pixel?_ofPicture palette picture hx hy
  rw [pixel?, width_ofPicture, Nat.div_add_mod'] at hshown
  obtain ⟨_, hshown⟩ := Array.getElem?_eq_some_iff.mp hshown
  exact ⟨_, hshown⟩

/-- So it is clear or solid. -/
theorem isClear_or_solid_of_mem_ofPicture {p : Pixel}
    (hp : p ∈ (ofPicture picture palette).pixels) : p = .clear ∨ p = .solid p.color := by
  obtain ⟨value, rfl⟩ := exists_eq_pixel_of_mem_ofPicture palette picture hp
  cases value with
  | none => exact Or.inl rfl
  | some v => exact Or.inr rfl

end Raster

end Interlude
