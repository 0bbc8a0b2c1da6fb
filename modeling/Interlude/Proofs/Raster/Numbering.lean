import Mathlib
import Interlude.Proofs.Firsts
import Interlude.Proofs.Raster.Coverage
import Interlude.Proofs.Raster.Indexing

/-!
# Numbering colours pixel by pixel

The indexed form of an image can be made in one pass over its pixels, which gives each colour that it
meets for the first time the next number, as long as eight bits hold the number. The pass keeps what the
pixels before have made of the palette. It fails exactly where there are more colours than numbers, and
else gives the palette of all seen colours, in the order in which they appear first, after the entry that
is set apart for transparent pixels.
-/

namespace Interlude

/-! ### One pixel after another -/

/-- What numbering has made of some pixels: the palette, the numbers of the colours that were met, and
the numbers of the pixels. -/
structure Numbering where
  palette : List Rgb
  numbers : List (Rgb × UInt8)
  indices : List UInt8

namespace Numbering

/-- Numbers one more pixel. A transparent one has the number 0. A colour that was met keeps its number,
and a new one gets the next number of the palette, if eight bits hold it. -/
def add (n : Numbering) (p : Pixel) : Option Numbering :=
  if p.isClear then some { n with indices := n.indices ++ [0] }
  else
    match n.numbers.lookup p.color with
    | some number => some { n with indices := n.indices ++ [number] }
    | none =>
      if n.palette.length < UInt8.size then
        let number := UInt8.ofNat n.palette.length
        some ⟨n.palette ++ [p.color], (p.color, number) :: n.numbers, n.indices ++ [number]⟩
      else none

end Numbering

/-- The colours of the pixels that are seen, one for each pixel. -/
def seenColors (pixels : List Pixel) : List Rgb :=
  (pixels.filter (!·.isClear)).map Pixel.color

/-- The number of a pixel, where some entries are set apart and the colours come after them. -/
def numberOf (reserved colors : List Rgb) (p : Pixel) : UInt8 :=
  if p.isClear then 0 else .ofNat (reserved.length + colors.idxOf p.color)

/-- The indexed form as one pass over the pixels makes it. -/
def Raster.numbered? (r : Raster) : Option Indexed :=
  (r.pixels.toList.foldlM Numbering.add ⟨r.reserved, [], []⟩).map fun n => {
    width := r.width
    height := r.height
    palette := n.palette
    transparent := if r.hasTransparency then some 0 else none
    indices := n.indices }

/-- A pixel that is seen shows its colour. -/
theorem color_mem_seenColors {pixels : List Pixel} {p : Pixel} (hp : p ∈ pixels)
    (h : p.isClear = false) : p.color ∈ seenColors pixels :=
  List.mem_map_of_mem (List.mem_filter.mpr ⟨hp, by simp [h]⟩)

/-- A transparent pixel adds no colour. -/
theorem seenColors_concat_of_isClear {p : Pixel} (h : p.isClear = true) (pixels : List Pixel) :
    seenColors (pixels ++ [p]) = seenColors pixels := by
  simp [seenColors, h]

/-- Any other pixel adds its own. -/
theorem seenColors_concat {p : Pixel} (h : p.isClear = false) (pixels : List Pixel) :
    seenColors (pixels ++ [p]) = seenColors pixels ++ [p.color] := by
  simp [seenColors, h]

/-- Further colours change no number that a pixel has. -/
theorem numberOf_append {reserved colors : List Rgb} {p : Pixel}
    (h : p.isClear = false → p.color ∈ colors) (more : List Rgb) :
    numberOf reserved (colors ++ more) p = numberOf reserved colors p := by
  unfold numberOf
  split
  · rfl
  · rename_i hseen
    rw [List.idxOf_append_of_mem (h (by simpa using hseen))]

namespace Numbering

variable {reserved : List Rgb} {pixels : List Pixel} {n : Numbering} {p : Pixel}

/-- Numbering has made of some pixels what they ask for: the palette of their colours in the order of
first appearance, and the number of its entry for each colour and pixel. -/
structure Follows (reserved : List Rgb) (pixels : List Pixel) (n : Numbering) : Prop where
  palette_eq : n.palette = reserved ++ (seenColors pixels).eraseDups
  lookup_eq : ∀ c, n.numbers.lookup c =
    if c ∈ seenColors pixels then
      some (.ofNat (reserved.length + (seenColors pixels).eraseDups.idxOf c))
    else none
  indices_eq : n.indices = pixels.map (numberOf reserved (seenColors pixels).eraseDups)
  length_le : reserved.length + (seenColors pixels).eraseDups.length ≤ UInt8.size

/-- As long as no colour is new, the palette stays and only the pixel gets its number. -/
theorem Follows.of_firsts_eq (h : Follows reserved pixels n)
    (hsame : ∀ c, c ∈ seenColors (pixels ++ [p]) ↔ c ∈ seenColors pixels)
    (hfirsts : (seenColors (pixels ++ [p])).eraseDups = (seenColors pixels).eraseDups) :
    Follows reserved (pixels ++ [p]) { n with
      indices := n.indices ++ [numberOf reserved (seenColors pixels).eraseDups p] } where
  palette_eq := by rw [hfirsts, h.palette_eq]
  lookup_eq := fun c => by
    rw [hfirsts, h.lookup_eq]
    exact if_congr (hsame c).symm rfl rfl
  indices_eq := by rw [hfirsts, List.map_append, h.indices_eq, List.map_singleton]
  length_le := by rw [hfirsts]; exact h.length_le

/-- A new colour gets the number of the entry that it adds to the palette. -/
theorem Follows.of_new (h : Follows reserved pixels n) (hseen : p.isClear = false)
    (hnew : p.color ∉ seenColors pixels) (hroom : n.palette.length < UInt8.size) :
    let number := UInt8.ofNat n.palette.length
    Follows reserved (pixels ++ [p])
      ⟨n.palette ++ [p.color], (p.color, number) :: n.numbers, n.indices ++ [number]⟩ := by
  intro number
  have hcolors := seenColors_concat hseen pixels
  have hfirsts : (seenColors (pixels ++ [p])).eraseDups =
      (seenColors pixels).eraseDups ++ [p.color] := by
    rw [hcolors, eraseDups_concat, if_neg hnew]
  have hplace : ((seenColors pixels).eraseDups ++ [p.color]).idxOf p.color =
      (seenColors pixels).eraseDups.length := by
    rw [List.idxOf_append_of_notMem fun hmem => hnew (List.mem_eraseDups.mp hmem),
      List.idxOf_cons_self, Nat.add_zero]
  have hnumber : number = .ofNat (reserved.length + (seenColors pixels).eraseDups.length) := by
    rw [show number = .ofNat n.palette.length from rfl, h.palette_eq, List.length_append]
  refine ⟨by rw [hfirsts, h.palette_eq, List.append_assoc], fun c => ?_, ?_, ?_⟩
  · rw [hfirsts, hcolors]
    by_cases hc : c = p.color
    · subst hc
      rw [List.lookup_cons_self, if_pos List.mem_concat_self, hplace, hnumber]
    · rw [List.lookup_cons, beq_eq_false_iff_ne.mpr hc, h.lookup_eq]
      by_cases hold : c ∈ seenColors pixels
      · rw [if_pos hold, if_pos (List.mem_append_left _ hold),
          List.idxOf_append_of_mem (List.mem_eraseDups.mpr hold)]
      · rw [if_neg hold, if_neg (by simp [hold, hc])]
  · have hold : pixels.map (numberOf reserved ((seenColors pixels).eraseDups ++ [p.color])) =
        pixels.map (numberOf reserved (seenColors pixels).eraseDups) :=
      List.map_congr_left fun q hq => numberOf_append
        (fun hseen => List.mem_eraseDups.mpr (color_mem_seenColors hq hseen)) [p.color]
    rw [hfirsts, List.map_append, List.map_singleton, hold, h.indices_eq, numberOf,
      if_neg (by simp [hseen]), hplace, hnumber]
  · rw [h.palette_eq, List.length_append] at hroom
    rw [hfirsts, List.length_append, List.length_singleton]
    omega

/-- The outcome of numbering is what some pixels ask for, or there is none as their colours are too
many. -/
def FollowsOrFails (reserved : List Rgb) (pixels : List Pixel) : Option Numbering → Prop
  | some n => Follows reserved pixels n
  | none => UInt8.size < reserved.length + (seenColors pixels).eraseDups.length

/-- Numbering one more pixel does what the pixel asks for, or its colour is one too many. -/
theorem Follows.add (h : Follows reserved pixels n) (p : Pixel) :
    FollowsOrFails reserved (pixels ++ [p]) (n.add p) := by
  rw [Numbering.add]
  by_cases hclear : p.isClear = true
  · have hcolors := seenColors_concat_of_isClear hclear pixels
    have hkept := h.of_firsts_eq (p := p) (fun c => by rw [hcolors]) (by rw [hcolors])
    rw [numberOf, if_pos hclear] at hkept
    rw [if_pos hclear]
    exact hkept
  have hseen : p.isClear = false := Bool.eq_false_iff.mpr hclear
  have hcolors := seenColors_concat hseen pixels
  rw [if_neg hclear, h.lookup_eq]
  by_cases hmet : p.color ∈ seenColors pixels
  · have hkept := h.of_firsts_eq (p := p) (fun c => ?_) (by rw [hcolors, eraseDups_concat, if_pos hmet])
    · rw [numberOf, if_neg hclear] at hkept
      rw [if_pos hmet]
      exact hkept
    · rw [hcolors, List.mem_append, List.mem_singleton, or_iff_left_iff_imp]
      rintro rfl
      exact hmet
  rw [if_neg hmet]
  dsimp only
  split
  · rename_i hroom
    exact h.of_new hseen hmet hroom
  · rename_i hfull
    change UInt8.size < _
    rw [h.palette_eq, List.length_append] at hfull
    rw [hcolors, eraseDups_concat, if_neg hmet, List.length_append, List.length_singleton]
    omega

/-- Further pixels take away no colour. -/
theorem length_eraseDups_le (pixels more : List Pixel) :
    (seenColors pixels).eraseDups.length ≤ (seenColors (pixels ++ more)).eraseDups.length := by
  have hsplit : seenColors (pixels ++ more) = seenColors pixels ++ seenColors more := by
    simp [seenColors]
  rw [hsplit, List.eraseDups_append, List.length_append]
  exact Nat.le_add_right _ _

/-- Numbering further pixels does what all of them ask for, or there are too many colours. -/
theorem Follows.foldlM (h : Follows reserved pixels n) (more : List Pixel) :
    FollowsOrFails reserved (pixels ++ more) (more.foldlM Numbering.add n) := by
  induction more generalizing pixels n with
  | nil => rwa [List.append_nil]
  | cons p rest ih =>
    have hstep := h.add p
    rw [List.foldlM_cons, List.append_cons]
    cases hadd : n.add p with
    | some n' =>
      rw [hadd] at hstep
      exact ih hstep
    | none =>
      rw [hadd] at hstep
      exact lt_of_lt_of_le (α := Nat) hstep
        (Nat.add_le_add_left (length_eraseDups_le (pixels ++ [p]) rest) _)

end Numbering

namespace Raster

/-- At most one entry is set apart. -/
theorem length_reserved_le (r : Raster) : r.reserved.length ≤ UInt8.size := by
  unfold reserved
  split <;> decide

/-- One pass over the pixels makes the indexed form. -/
theorem numbered?_eq (r : Raster) : r.numbered? = r.toIndexed? := by
  have hstart : Numbering.Follows r.reserved [] ⟨r.reserved, [], []⟩ :=
    ⟨(List.append_nil _).symm, fun _ => rfl, rfl, r.length_reserved_le⟩
  have hrun := hstart.foldlM r.pixels.toList
  rw [List.nil_append] at hrun
  rw [numbered?, toIndexed?_eq]
  cases hpass : r.pixels.toList.foldlM Numbering.add ⟨r.reserved, [], []⟩ with
  | none =>
    rw [hpass] at hrun
    exact (if_pos hrun).symm
  | some n =>
    rw [hpass] at hrun
    have hroom : ¬ Palette.maxColors < r.reserved.length + r.colors.length :=
      Nat.not_lt.mpr hrun.length_le
    rw [if_neg hroom, Option.map_some, hrun.palette_eq, hrun.indices_eq]
    rfl

/-! ### Expanding the numbers -/

variable {r : Raster}

/-- An entry is set apart exactly if a pixel is transparent. -/
theorem hasTransparency_iff : r.hasTransparency = true ↔ ∃ p ∈ r.pixels, p.alpha = 0 := by
  rw [hasTransparency, Array.any_eq_true']
  simp [Pixel.isClear]

/-- A drawn pixel that is seen has a colour that the palette gives to some value. -/
theorem exists_color_of_mem_ofPicture {picture : Picture} {palette : Palette} {c : Rgb}
    (h : c ∈ seenColors (ofPicture picture palette).pixels.toList) :
    ∃ value, palette.color value = c := by
  obtain ⟨p, hp, rfl⟩ := List.mem_map.mp h
  obtain ⟨hp, hseen⟩ := List.mem_filter.mp hp
  obtain ⟨value, rfl⟩ := exists_eq_pixel_of_mem_ofPicture palette picture (Array.mem_toList_iff.mp hp)
  cases value with
  | none => contradiction
  | some value => exact ⟨value, rfl⟩

/-- So no drawing shows more colours than there are values. -/
theorem card_seenColors_ofPicture_le (picture : Picture) (palette : Palette) :
    (seenColors (ofPicture picture palette).pixels.toList).toFinset.card ≤ UInt8.size := by
  let shown := (Finset.range UInt8.size).image fun value => palette.color (.ofNat value)
  have hsubset : (seenColors (ofPicture picture palette).pixels.toList).toFinset ⊆ shown := by
    intro c hc
    obtain ⟨value, rfl⟩ := exists_color_of_mem_ofPicture (List.mem_toFinset.mp hc)
    refine Finset.mem_image.mpr ⟨value.toNat, Finset.mem_range.mpr value.toNat_lt, ?_⟩
    rw [UInt8.ofNat_toNat]
  calc _ ≤ shown.card := Finset.card_le_card hsubset
    _ ≤ (Finset.range UInt8.size).card := Finset.card_image_le
    _ = UInt8.size := Finset.card_range _

/-- A number that stands for a pixel is that of an entry. -/
theorem lt_length_of_pixel? {i : Indexed} {index : UInt8} {p : Pixel}
    (h : i.pixel? index = some p) : index.toNat < i.palette.length := by
  obtain ⟨c, hc, -⟩ := Option.map_eq_some_iff.mp h
  exact (List.getElem?_eq_some_iff.mp hc).1

/-- An image that is transparent or opaque at each pixel has an indexed form unless the number of its
different seen colours, and one more if a pixel is transparent, exceeds 256. The palette of the form is
the entry that is set apart, if a pixel is transparent, and then the seen colours in the order of first
appearance; every number is that of an entry, and expanding the numbers gives back all that is seen of the
pixels. One pass over the pixels makes it. Of the drawings of pictures, whatever the palette, only those
have none that show 256 colours and a transparent pixel. -/
theorem toIndexed?_keeps_seen (r : Raster) (hmask : r.IsMask) :
    let colors := seenColors r.pixels.toList
    let hasClear := ∃ p ∈ r.pixels, p.alpha = 0
    (r.toIndexed? = none ↔ 256 < colors.toFinset.card + if hasClear then 1 else 0) ∧
    (∀ i, r.toIndexed? = some i →
      (∃ firsts, AreFirsts colors firsts ∧
        i.palette = (if hasClear then [Rgb.black] else []) ++ firsts) ∧
      i.transparent = (if hasClear then some 0 else none) ∧
      (∀ index ∈ i.indices, index.toNat < i.palette.length) ∧
      i.indices.mapM i.pixel? = some (r.pixels.toList.map Pixel.seen)) ∧
    r.numbered? = r.toIndexed? ∧
    ∀ picture palette, r = ofPicture picture palette → r.toIndexed? = none →
      hasClear ∧ colors.toFinset.card = 256 := by
  intro colors hasClear
  have hfirsts : AreFirsts colors r.colors := areFirsts_eraseDups colors
  have hreserved : r.reserved = if hasClear then [Rgb.black] else [] :=
    if_congr hasTransparency_iff rfl rfl
  have hlength : r.reserved.length = if hasClear then 1 else 0 := by
    rw [hreserved]
    split <;> rfl
  have hnone : r.toIndexed? = none ↔ 256 < colors.toFinset.card + if hasClear then 1 else 0 := by
    rw [toIndexed?_eq, ← hlength, ← hfirsts.length_eq, Nat.add_comm]
    exact ite_eq_left_iff.trans (by simp [Palette.maxColors])
  refine ⟨hnone, fun i hi => ?_, r.numbered?_eq, fun picture palette hr hfails => ?_⟩
  · have hentry : ∀ index ∈ i.indices, index.toNat < i.palette.length := by
      intro index hindex
      rw [indices_of_toIndexed? hi] at hindex
      obtain ⟨p, hp, rfl⟩ := List.mem_map.mp hindex
      exact lt_length_of_pixel? (pixel?_indexOf hi hmask (Array.mem_toList_iff.mp hp))
    have hexpanded := mapM_pixel?_indices hi hmask
    rw [toIndexed?_eq] at hi
    split at hi
    · contradiction
    · obtain rfl := Option.some.inj hi
      exact ⟨⟨r.colors, hfirsts, by rw [hreserved]⟩, if_congr hasTransparency_iff rfl rfl, hentry,
        hexpanded⟩
  · have hmany := hnone.mp hfails
    have hfew : colors.toFinset.card ≤ 256 := by
      rw [show colors = seenColors (ofPicture picture palette).pixels.toList by rw [← hr]]
      exact card_seenColors_ofPicture_le picture palette
    by_cases hclear : hasClear
    · rw [if_pos hclear] at hmany
      exact ⟨hclear, by omega⟩
    · rw [if_neg hclear] at hmany
      omega

/-- An image with an opaque pixel of the colour of the entry that is set apart: it has an entry of its
own. -/
theorem toIndexed?_keeps_seen_black :
    let red : Rgb := ⟨255, 0, 0⟩
    let r : Raster := ⟨2, 2, #[⟨red, 255⟩, ⟨red, 0⟩, ⟨.black, 255⟩, ⟨red, 255⟩]⟩
    let i : Indexed := ⟨2, 2, [.black, red, .black], some 0, [1, 0, 2, 1]⟩
    r.IsMask ∧ r.toIndexed? = some i ∧ r.numbered? = some i ∧
      (∃ firsts, AreFirsts (seenColors r.pixels.toList) firsts ∧ i.palette = [.black] ++ firsts) ∧
      i.indices.mapM i.pixel? = some [.solid red, .clear, .solid .black, .solid red] := by
  intro red r i
  have hmask : r.IsMask := by
    intro p hp
    have hpixels : ∀ p ∈ r.pixels.toList, p.alpha = 0 ∨ p.alpha = 255 := by decide
    exact hpixels p (Array.mem_toList_iff.mpr hp)
  have hindexed : r.toIndexed? = some i := by decide +kernel
  have hclear : ∃ p ∈ r.pixels, p.alpha = 0 :=
    ⟨⟨red, 0⟩, Array.mem_toList_iff.mp (by decide), rfl⟩
  obtain ⟨-, hforms, hpass, -⟩ := toIndexed?_keeps_seen r hmask
  obtain ⟨⟨firsts, hfirsts, hpalette⟩, -, -, hexpanded⟩ := hforms i hindexed
  rw [if_pos hclear] at hpalette
  exact ⟨hmask, hindexed, hpass.trans hindexed, ⟨firsts, hfirsts, hpalette⟩, hexpanded⟩

end Raster

end Interlude
