import Mathlib
import Interlude.Proofs.LumpTable.Course

/-!
# The views of a sorted archive agree

A name has a category exactly if one place of the directory has one, and it is the same one. The names
that have bytes are those of the unknown category, the names that have an image those of the categories
of images. What a name got first it keeps, and its later places get nothing.
-/

namespace Interlude

/-- The name in the directory at a place. -/
def Archive.nameAt? (a : Archive) (index : Nat) : Option String :=
  (a.entries[index]?).map LumpEntry.name

namespace Sorting

variable {a : Archive} {index : Nat} {t : LumpTable}

/-- The place of a content has its name and its category. -/
theorem Faithful.exists_place (h : Faithful a index t) {name : String} {k : Category}
    (hk : t.category? name = some k) :
    ∃ i, a.nameAt? i = some name ∧ t.categoryAt? i = some k := by
  obtain ⟨f, hf, rfl, hcategory⟩ := LumpTable.category?_eq_some_iff.mp hk
  exact ⟨f.index, h.named f hf, (h.inOrder.categoryAt?_eq_some_iff _).mpr ⟨f, hf, rfl, hcategory⟩⟩

/-- A place with a category belongs to a name with that category. -/
theorem Faithful.exists_name (h : Faithful a index t) {i : Nat} {k : Category}
    (hk : t.categoryAt? i = some k) :
    ∃ name, a.nameAt? i = some name ∧ t.category? name = some k := by
  obtain ⟨f, hf, rfl, hcategory⟩ := (h.inOrder.categoryAt?_eq_some_iff i).mp hk
  exact ⟨f.name, h.named f hf, LumpTable.category?_eq_some_iff.mpr ⟨f, hf, rfl, hcategory⟩⟩

/-- Of the places with a name, one has a category. -/
theorem Faithful.place_unique (h : Faithful a index t) {i j : Nat} {name : String}
    (hi : a.nameAt? i = some name) (hj : a.nameAt? j = some name)
    (hki : (t.categoryAt? i).isSome) (hkj : (t.categoryAt? j).isSome) : i = j := by
  obtain ⟨k, hki⟩ := Option.isSome_iff_exists.mp hki
  obtain ⟨l, hkj⟩ := Option.isSome_iff_exists.mp hkj
  obtain ⟨f, hf, rfl, _⟩ := (h.inOrder.categoryAt?_eq_some_iff i).mp hki
  obtain ⟨g, hg, rfl, _⟩ := (h.inOrder.categoryAt?_eq_some_iff j).mp hkj
  have hname : f.name = g.name := by
    have hfg := (h.named f hf).symm.trans (hi.trans (hj.symm.trans (h.named g hg)))
    exact Option.some.inj hfg
  rw [List.inj_on_of_nodup_map t.nodup hf hg hname]

/-- The bytes of a name are those of the lump at the place that has its category. -/
theorem Faithful.raw?_eq_some_iff (h : Faithful a index t) {name : String} {bytes : ByteArray} :
    t.raw? name = some bytes ↔
      ∃ i, a.nameAt? i = some name ∧ t.categoryAt? i = some .unknown ∧ a.lump i = .ok bytes := by
  rw [LumpTable.raw?_eq_some_iff, LumpTable.content?_eq_some_iff]
  constructor
  · rintro ⟨f, hf, rfl, hcontent⟩
    refine ⟨f.index, h.named f hf,
      (h.inOrder.categoryAt?_eq_some_iff _).mpr ⟨f, hf, rfl, by rw [hcontent]; rfl⟩, ?_⟩
    rcases h.found f hf with hmap | ⟨found, hlump, hisOf⟩
    · rw [hmap] at hcontent
      contradiction
    · rw [hcontent] at hisOf
      rw [hlump, show bytes = found from hisOf]
  · rintro ⟨i, hname, hk, hlump⟩
    obtain ⟨f, hf, rfl, hcategory⟩ := (h.inOrder.categoryAt?_eq_some_iff i).mp hk
    obtain ⟨kept, hcontent⟩ := (Content.category_eq_unknown_iff f.content).mp hcategory
    refine ⟨f, hf, Option.some.inj ((h.named f hf).symm.trans hname), ?_⟩
    rcases h.found f hf with hmap | ⟨found, hfound, hisOf⟩
    · rw [hmap] at hcontent
      contradiction
    · rw [hcontent] at hisOf
      rw [hcontent, show kept = found from hisOf, Except.ok.inj (hfound.symm.trans hlump)]

/-- A name that has a category before its lump comes leaves the place of that lump without one. -/
theorem Reached.categoryAt?_eq_none {s : Sorting} {e : LumpEntry} {following : List LumpEntry}
    (h : Reached a s index (e :: following)) (hk : (s.table.category? e.name).isSome) :
    (ofArchive a).table.categoryAt? index = none := by
  obtain ⟨last, hlast⟩ := h.reached_visitAll
  rw [h.visitAll_eq] at hlast
  have hfaithful := hlast.faithful
  obtain ⟨k, hk⟩ := Option.isSome_iff_exists.mp hk
  obtain ⟨f, hf, hname, _⟩ := LumpTable.category?_eq_some_iff.mp hk
  have hkept : f ∈ (ofArchive a).table.filed := h.visitAll_eq ▸ mem_filed_visitAll hf
  have hplace : (ofArchive a).table.categoryAt? f.index = some f.content.category :=
    (hfaithful.inOrder.categoryAt?_eq_some_iff _).mpr ⟨f, hkept, rfl, rfl⟩
  by_contra hsome
  have hsame := hfaithful.place_unique (hfaithful.named f hkept)
    (by rw [Archive.nameAt?, h.getElem?, Option.map_some, hname]) (by rw [hplace]; rfl)
    (Option.isSome_iff_ne_none.mpr hsome)
  exact Nat.ne_of_lt (h.faithful.below f hf) hsame

end Sorting

open Sorting in
/-- The views of a sorted archive agree. A name with a category has exactly one place of the directory
with a category, which is the same one, and a place with a category belongs to a name that has it. The
names with bytes are those of the unknown category, and the bytes are those of their place. The names
with an image are those of the categories of images: a picture file under its own category, and a
picture under that of its kind, so that no name has bytes and an image. At every point of the sorting, a
name that has a content has the same one at the end, and its next places get none. -/
theorem Archive.sorted_views_agree (a : Archive) (fallback : Option Palette) :
    let t := (a.sorted fallback).table
    (∀ name k, t.category? name = some k → ∃ i, a.nameAt? i = some name ∧
      t.categoryAt? i = some k ∧
      ∀ j, a.nameAt? j = some name → (t.categoryAt? j).isSome → j = i) ∧
    (∀ i k, t.categoryAt? i = some k → ∃ name, a.nameAt? i = some name ∧
      t.category? name = some k) ∧
    (∀ name, (t.raw? name).isSome ↔ t.category? name = some .unknown) ∧
    (∀ name bytes, t.raw? name = some bytes ↔ ∃ i, a.nameAt? i = some name ∧
      t.categoryAt? i = some .unknown ∧ a.lump i = .ok bytes) ∧
    (∀ name, (t.image? name).isSome ↔
      t.category? name = some .png ∨ ∃ kind, t.category? name = some (.image kind)) ∧
    (∀ name, (∃ bytes, t.image? name = some (.png bytes)) ↔ t.category? name = some .png) ∧
    (∀ name kind p, t.image? name = some (.picture kind p) →
      t.category? name = some (.image kind)) ∧
    (∀ name, ¬ ((t.raw? name).isSome ∧ (t.image? name).isSome)) ∧
    (∀ s index rest, Reached a s index rest → ∀ name c, s.table.content? name = some c →
      t.content? name = some c) ∧
    (∀ s index e following, Reached a s index (e :: following) →
      (s.table.category? e.name).isSome → t.categoryAt? index = none) := by
  intro t
  obtain ⟨last, hlast⟩ := (Reached.start (a := a)).reached_visitAll
  have hfaithful : Faithful a last t := hlast.faithful
  refine ⟨?_, fun i k => hfaithful.exists_name, fun name => LumpTable.isSome_raw?_iff,
    fun name bytes => hfaithful.raw?_eq_some_iff, fun name => LumpTable.isSome_image?_iff,
    fun name => LumpTable.exists_image?_eq_png_iff,
    fun name kind p => LumpTable.category?_of_image?_eq_picture, ?_, ?_,
    fun s index e following => Reached.categoryAt?_eq_none⟩
  · intro name k hk
    obtain ⟨i, hname, hplace⟩ := hfaithful.exists_place hk
    exact ⟨i, hname, hplace, fun j hj hset =>
      hfaithful.place_unique hj hname hset (by rw [hplace]; rfl)⟩
  · rintro name ⟨hraw, himage⟩
    rw [LumpTable.isSome_raw?_iff] at hraw
    rw [LumpTable.isSome_image?_iff, hraw] at himage
    simp at himage
  · intro s index rest hreached name c hc
    obtain ⟨f, hf, hname, hcontent⟩ := LumpTable.content?_eq_some_iff.mp hc
    have hkept : f ∈ (ofArchive a).table.filed := hreached.visitAll_eq ▸ mem_filed_visitAll hf
    exact LumpTable.content?_eq_some_iff.mpr ⟨f, hkept, hname, hcontent⟩

end Interlude
