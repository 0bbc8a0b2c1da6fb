import Mathlib
import Interlude.Proofs.LumpTable.Agreement
import Interlude.Proofs.LumpTable.Findings
import Interlude.Proofs.LumpTable.Inventory
import Interlude.Proofs.LumpTable.Names
import Interlude.Proofs.LumpTable.OneByOne

/-!
# Taking an inventory and sorting

An inventory is taken in the same steps in which an archive is sorted: before each lump it holds what the table
does, in the order in which it was filed. Both look whether the name has a kind before they take a lump, so that the
table never turns away what the inventory stores. What is written in several places therefore agrees, at every step
and at the end, and is never written again.
-/

namespace Interlude

namespace Content

/-- A content that is a picture or just bytes. -/
def IsPlain : Content → Prop
  | picture _ _ | png _ | raw _ => True
  | _ => False

/-- Bytes of which only the name is known are a picture or just bytes. -/
theorem isPlain_ofBytes (bytes : ByteArray) : (ofBytes bytes).IsPlain := by
  unfold ofBytes
  split
  · trivial
  · cases Picture.decode? bytes <;> trivial

/-- Bytes in a range are a picture or just bytes. -/
theorem isPlain_ofRange (kind : RangeKind) (bytes : ByteArray) : (ofRange kind bytes).IsPlain := by
  unfold ofRange
  split
  · trivial
  · cases kind with
    | flat => trivial
    | sprite => cases Picture.decode? bytes <;> trivial
    | patch => cases Picture.decode? bytes <;> trivial

/-- Bytes under a name in the list of patches are a picture or just bytes. -/
theorem isPlain_ofPatch (bytes : ByteArray) : (ofPatch bytes).IsPlain := by
  unfold ofPatch
  cases Picture.decode? bytes with
  | none => exact isPlain_ofBytes bytes
  | some p => trivial

variable {c : Content}

/-- A picture or bytes are no list of patches. -/
theorem IsPlain.patchNameList_eq_nil (h : c.IsPlain) : c.patchNameList = [] := by
  cases c <;> first | rfl | contradiction

/-- A picture or bytes are no exit screen. -/
theorem IsPlain.screen?_eq_none (h : c.IsPlain) : c.screen? = none := by
  cases c <;> first | rfl | contradiction

end Content

namespace Sorting

variable {a : Archive} {index : Nat} {s : Sorting} {rest : List LumpEntry}

/-- Only the rule for exit screens makes one of bytes. -/
theorem eq_endoom_of_contentOf? {rule : Rule} {bytes : ByteArray} {c : Content}
    (h : rule.contentOf? bytes = some c) (hscreen : c.screen?.isSome) : rule = .endoom := by
  -- What the other rules make of bytes is no exit screen.
  have hplain {c' : Content} (hc' : c'.IsPlain) (heq : some c' = some c) : False := by
    rw [← Option.some.inj heq, hc'.screen?_eq_none] at hscreen
    contradiction
  cases rule with
  | endoom => rfl
  | palette | colormap => cases h; contradiction
  | patchNames =>
    obtain ⟨names, -, rfl⟩ := Option.map_eq_some_iff.mp h
    contradiction
  | inFolder kind => exact (hplain (Content.isPlain_ofRange kind bytes) h).elim
  | patch => exact (hplain (Content.isPlain_ofPatch bytes) h).elim
  | other => exact (hplain (Content.isPlain_ofBytes bytes) h).elim
  | texture =>
    rw [Rule.contentOf?] at h
    cases htextures : (Lump.readTextures bytes).toOption with
    | none =>
      rw [htextures] at h
      exact (hplain (Content.isPlain_ofBytes bytes) h).elim
    | some textures =>
      rw [htextures] at h
      cases h
      contradiction
  | unparsed | openRange | mapBlock => contradiction

/-- Only the rule for exit screens makes one of a lump. -/
theorem eq_endoom_of_content? {lump : Except ArchiveError ByteArray} {rule : Rule} {c : Content}
    (h : rule.content? lump = some c) (hscreen : c.screen?.isSome) : rule = .endoom := by
  unfold Rule.content? at h
  split at h
  · cases h
    contradiction
  · obtain ⟨bytes, -, hcontent⟩ := Option.bind_eq_some_iff.mp h
    exact eq_endoom_of_contentOf? hcontent hscreen

/-- What is found to be an exit screen has the name of one. -/
theorem name_of_find? {t : LumpTable} {ranges : List OpenRange} {e : LumpEntry} {c : Content}
    (h : t.find? ranges a index e = some c) (hscreen : c.screen?.isSome) : e.name = "ENDOOM" := by
  cases ranges with
  | nil =>
    obtain ⟨-, -, -, hrule⟩ := LumpTable.findOutside?_eq_some_iff.mp h
    exact Rule.eq_of_endoom (eq_endoom_of_content? hrule hscreen)
  | cons range outer =>
    obtain ⟨-, -, hinside⟩ := LumpTable.find?_cons_eq_some_iff.mp h
    obtain ⟨-, -, -, bytes, -, rfl⟩ := LumpTable.findInside?_eq_some_iff.mp hinside
    rw [(Content.isPlain_ofRange range.kind bytes).screen?_eq_none] at hscreen
    contradiction

/-- At every point of the sorting, exit screens have one name alone. -/
theorem Reached.screensAreNamed (h : Reached a s index rest) : Inventory.ScreensAreNamed s.table := by
  induction h with
  | start => exact fun f hf => absurd hf List.not_mem_nil
  | @next s index e following _ ih =>
    rw [table_visit]
    cases hfound : s.table.find? s.ranges a index e with
    | none => exact ih
    | some c =>
      have hnew := LumpTable.not_isFiled_of_find? hfound
      intro f hf hscreen
      rw [Option.elim_some, LumpTable.filed_file_of_not_isFiled index c hnew] at hf
      rcases List.mem_append.mp hf with hf | hf
      · exact ih f hf hscreen
      · obtain rfl := List.mem_singleton.mp hf
        exact name_of_find? hfound hscreen

/-- At every point of the sorting, an inventory in which the contents of the table are stored mirrors it. -/
theorem Reached.mirrors (h : Reached a s index rest) :
    ((Inventory.blank a.entries.length).storeAll s.table.filed).Mirrors s.table := by
  refine Inventory.mirrors_storeAll _ h.faithful.inOrder (fun f hf => ?_) h.screensAreNamed
  by_contra hout
  have hnamed := h.faithful.named f hf
  rw [List.getElem?_eq_none (Nat.not_lt.mp hout)] at hnamed
  contradiction

end Sorting

namespace Stocktaking

/-- The taking of an inventory follows a sorting: the contents of the table are stored in it, and all else is the
same. -/
structure Follows (count : Nat) (s : Stocktaking) (t : Sorting) : Prop where
  inventory : s.inventory = (Inventory.blank count).storeAll t.table.filed
  patches : s.patches = t.patches
  ranges : s.ranges = t.ranges
  warnings : s.warnings = t.warnings

namespace Follows

variable {count : Nat} {s : Stocktaking} {t : Sorting} {a : Archive} {index : Nat} {name : String}

/-- A name has a kind in the inventory exactly if it has a content in the table. -/
theorem isSome_category? (h : Follows count s t) (name : String) :
    (s.inventory.category? name).isSome = t.table.isFiled name := by
  rw [h.inventory, Inventory.category?_storeAll, LumpTable.category?, LumpTable.content?, Option.isSome_map,
    Option.isSome_map, LumpTable.isFiled, List.isSome_find?]

/-- Both give the same warning. -/
theorem warn (h : Follows count s t) (w : SortWarning) : Follows count (s.warn w) (t.warn w) :=
  { h with warnings := congrArg (· ++ [w]) h.warnings }

/-- Both open the same range. -/
theorem openRange (h : Follows count s t) (marker terminator : String) :
    Follows count (s.openRange marker terminator)
      { t with ranges := ⟨.ofMarker marker, terminator⟩ :: t.ranges } :=
  { h with ranges := by rw [Stocktaking.openRange, h.ranges] }

/-- A content is stored as it is filed under a name that has none. -/
theorem store (h : Follows count s t) (index : Nat) (hnew : t.table.isFiled name = false) (c : Content) :
    Follows count
      { s with
        inventory := s.inventory.store ⟨index, name, c⟩
        patches := s.patches ++ c.patchNameList.map Text.upper }
      (t.file index name c) where
  inventory := by
    rw [h.inventory, Sorting.table_file, LumpTable.filed_file_of_not_isFiled index c hnew, Inventory.storeAll_concat]
  patches := by
    rw [h.patches, Sorting.patches, Sorting.patches, LumpTable.patchNames, LumpTable.patchNames, Sorting.table_file,
      LumpTable.filed_file_of_not_isFiled index c hnew, List.flatMap_append, List.map_append, List.flatMap_singleton]
  ranges := h.ranges
  warnings := h.warnings

/-- A content that is no list of patches is stored as it is filed. -/
theorem storeOne (h : Follows count s t) (hnew : t.table.isFiled name = false) (c : Content)
    (hnil : c.patchNameList = []) :
    Follows count { s with inventory := s.inventory.store ⟨index, name, c⟩ } (t.file index name c) := by
  have hstored := h.store index hnew c
  rwa [hnil, List.map_nil, List.append_nil] at hstored

/-- What a lump holds is stored as it is filed, and both warn of a lump that cannot be read. -/
theorem storeLump (h : Follows count s t) (hnew : t.table.isFiled name = false)
    {store : Inventory → ByteArray → Inventory} (content : ByteArray → Content)
    (hstore : ∀ v bytes, store v bytes = v.store ⟨index, name, content bytes⟩)
    (hnil : ∀ bytes, (content bytes).patchNameList = []) :
    Follows count (s.storeLump a index store)
      (t.fileLump a index name fun bytes => (some (content bytes), none)) := by
  unfold Stocktaking.storeLump Stocktaking.withBytes Sorting.fileLump
  cases a.lump index with
  | error e => exact h.warn _
  | ok bytes =>
    dsimp only [Option.elim]
    rw [hstore]
    exact h.storeOne hnew (content bytes) (hnil bytes)

/-- A list of patches is stored as it is filed. -/
theorem storePatchNames (h : Follows count s t) (hnew : t.table.isFiled name = false) :
    Follows count (s.withBytes a index (s.storePatchNames index name))
      (t.fileLump a index name Sorting.patchNamesOf) := by
  unfold Stocktaking.withBytes Sorting.fileLump
  cases a.lump index with
  | error e => exact h.warn _
  | ok bytes =>
    dsimp only
    unfold Stocktaking.storePatchNames Sorting.patchNamesOf
    cases Lump.readPatchNames bytes with
    | error e => exact h.warn _
    | ok names => exact h.store index hnew (.patchNames names)

/-- A list of textures is stored as it is filed. -/
theorem storeTextures (h : Follows count s t) (hnew : t.table.isFiled name = false) :
    Follows count (s.withBytes a index (s.storeTextures index name))
      (t.fileLump a index name (Sorting.texturesOf name)) := by
  unfold Stocktaking.withBytes Sorting.fileLump
  cases a.lump index with
  | error e => exact h.warn _
  | ok bytes =>
    dsimp only
    unfold Stocktaking.storeTextures Sorting.texturesOf
    cases Lump.readTextures bytes with
    | error e =>
      dsimp only [Option.elim]
      rw [Inventory.storeOther_eq_store]
      exact (h.warn _).storeOne hnew (.ofBytes bytes) (Content.isPlain_ofBytes bytes).patchNameList_eq_nil
    | ok textures => exact h.storeOne hnew (.textures textures) rfl

/-- A map is stored as it is filed. -/
theorem storeMap (h : Follows count s t) (hnew : t.table.isFiled name = false) (n : Nat) :
    Follows count (s.storeMap index name n)
      (if n < geometryNames.length then (t.file index name .map).warn (.shortMap name n)
        else t.file index name .map) := by
  have hfiled : Follows count _ (t.file index name .map) := h.storeOne hnew .map rfl
  unfold Stocktaking.storeMap
  dsimp only
  split
  · exact hfiled.warn _
  · exact hfiled

/-- A lump outside every range is taken as it is sorted. -/
theorem visitOutside (h : Follows count s t) (following : List LumpEntry) :
    Follows count (s.visitOutside a index name following).1 (t.visitOutside a index name following).1 ∧
      (s.visitOutside a index name following).2 = (t.visitOutside a index name following).2 := by
  unfold Stocktaking.visitOutside Sorting.visitOutside
  rw [h.isSome_category?, h.patches]
  split
  · exact ⟨h, rfl⟩
  · rename_i hskipped
    simp only [Bool.or_eq_true, not_or, Bool.not_eq_true] at hskipped
    obtain ⟨⟨hnew, -⟩, -⟩ := hskipped
    cases hrule : Rule.of name t.patches (a.folder? index) with
    | palette =>
      exact ⟨h.storeLump hnew (fun bytes => .palettes (Palette.readAll bytes)) (fun v bytes => rfl)
        fun bytes => rfl, rfl⟩
    | colormap =>
      exact ⟨h.storeLump hnew (fun bytes => .colormaps (readColormaps bytes)) (fun v bytes => rfl)
        fun bytes => rfl, rfl⟩
    | endoom =>
      exact ⟨h.storeLump hnew (fun bytes => .endoom (Screen.ofLump bytes)) (fun v bytes => rfl)
        fun bytes => rfl, rfl⟩
    | patchNames => exact ⟨h.storePatchNames hnew, rfl⟩
    | unparsed => exact ⟨h, rfl⟩
    | inFolder kind =>
      exact ⟨h.storeLump hnew (.ofRange kind) (fun v bytes => v.storeInRange_eq_store index name kind bytes)
        fun bytes => (Content.isPlain_ofRange kind bytes).patchNameList_eq_nil, rfl⟩
    | openRange kind terminator =>
      obtain ⟨-, rfl⟩ := Rule.eq_of_openRange hrule
      exact ⟨h.openRange name terminator, rfl⟩
    | patch =>
      exact ⟨h.storeLump hnew .ofPatch (fun v bytes => v.storePatch_eq_store index name bytes)
        fun bytes => (Content.isPlain_ofPatch bytes).patchNameList_eq_nil, rfl⟩
    | mapBlock => exact ⟨h.storeMap hnew _, rfl⟩
    | texture => exact ⟨h.storeTextures hnew, rfl⟩
    | other =>
      exact ⟨h.storeLump hnew .ofBytes (fun v bytes => v.storeOther_eq_store index name bytes)
        fun bytes => (Content.isPlain_ofBytes bytes).patchNameList_eq_nil, rfl⟩

/-- A lump in a range is taken as it is sorted. -/
theorem visitInside (h : Follows count s t) (e : LumpEntry) (kind : RangeKind) :
    Follows count (s.visitInside a index e kind) (t.visitInside a index e kind) := by
  unfold Stocktaking.visitInside Sorting.visitInside
  rw [h.isSome_category?, h.patches]
  split
  · exact h
  · rename_i hskipped
    simp only [Bool.or_eq_true, not_or, Bool.not_eq_true] at hskipped
    obtain ⟨-, hnew⟩ := hskipped
    split
    · exact h
    · exact h.storeLump hnew (.ofRange kind) (fun v bytes => v.storeInRange_eq_store index e.name kind bytes)
        fun bytes => (Content.isPlain_ofRange kind bytes).patchNameList_eq_nil

/-- Whatever stands open, a lump is taken as it is sorted, with the same lumps that belong to it. -/
theorem visit (h : Follows count s t) (a : Archive) (index : Nat) (e : LumpEntry) (following : List LumpEntry) :
    Follows count (s.visit a index e following).1 (t.visit a index e following).1 ∧
      (s.visit a index e following).2 = (t.visit a index e following).2 := by
  unfold Stocktaking.visit Sorting.visit
  rw [h.ranges]
  cases hranges : t.ranges with
  | nil => exact h.visitOutside following
  | cons range outer =>
    dsimp only
    split
    · exact ⟨{ h with ranges := rfl }, rfl⟩
    · cases endMarker? e.name with
      | none => exact ⟨h.visitInside e range.kind, rfl⟩
      | some terminator => exact ⟨hranges ▸ h.openRange e.name terminator, rfl⟩

/-- From one lump on, all are taken as they are sorted. -/
theorem visitAll (h : Follows count s t) (rest : List LumpEntry) :
    Follows count (Stocktaking.visitAll a s index rest) (Sorting.visitAll a t index rest) := by
  fun_induction Stocktaking.visitAll a s index rest generalizing t with
  | case1 s index =>
    rw [Sorting.visitAll]
    exact h
  | case2 s index e following s' count' hvisit ih =>
    have hstep := h.visit a index e following
    rw [hvisit] at hstep
    rw [Sorting.visitAll]
    obtain ⟨hstep, rfl⟩ := hstep
    exact ih hstep

end Follows

/-- The inventory of an archive is taken as the archive is sorted. -/
theorem follows_ofArchive (a : Archive) : Follows a.entries.length (ofArchive a) (Sorting.ofArchive a) :=
  Follows.visitAll ⟨rfl, rfl, rfl, rfl⟩ a.entries

/-- The states of the taking of an inventory, each with the place in the directory where it goes on and the lumps
from there on. -/
inductive Reached (a : Archive) : Stocktaking → Nat → List LumpEntry → Prop where
  | start : Reached a (start a.entries.length) 0 a.entries
  | next {s : Stocktaking} {index : Nat} {e : LumpEntry} {following : List LumpEntry} :
      Reached a s index (e :: following) →
        Reached a (s.visit a index e following).1 (index + 1 + (s.visit a index e following).2)
          (following.drop (s.visit a index e following).2)

/-- Each state follows one of the sorting. -/
theorem Reached.exists_follows {a : Archive} {s : Stocktaking} {index : Nat} {rest : List LumpEntry}
    (h : Reached a s index rest) : ∃ t, Sorting.Reached a t index rest ∧ Follows a.entries.length s t := by
  induction h with
  | start => exact ⟨.start, .start, rfl, rfl, rfl, rfl⟩
  | @next s index e following _ ih =>
    obtain ⟨t, hreached, hfollows⟩ := ih
    obtain ⟨hnext, hcount⟩ := hfollows.visit a index e following
    exact ⟨_, hcount ▸ hreached.next, hnext⟩

/-- At every point the inventory mirrors the table at the same point of the sorting. -/
theorem Reached.exists_mirrors {a : Archive} {s : Stocktaking} {index : Nat} {rest : List LumpEntry}
    (h : Reached a s index rest) : ∃ t, Sorting.Reached a t index rest ∧ s.inventory.Mirrors t.table := by
  obtain ⟨t, hreached, hfollows⟩ := h.exists_follows
  exact ⟨t, hreached, hfollows.inventory ▸ hreached.mirrors⟩

end Stocktaking

/-! ### Inventories of archives -/

/-- Other palettes leave what an inventory tells of all else. -/
theorem Inventory.Mirrors.withPalettes {v : Inventory} {t : LumpTable} (h : v.Mirrors t) (palettes : List Palette) :
    { v with palettes := palettes }.Mirrors t :=
  ⟨h.colormaps, h.screen, h.patchNames, h.textures, h.maps, h.image?, h.unknown?, h.category?, h.categoryAt?⟩

/-- The inventory of an archive tells what the sorted archive does, with the same palettes and warnings. -/
theorem Archive.inventory_mirrors_sorted (a : Archive) (fallback : Option Palette) :
    (a.inventory fallback).1.palettes = (a.sorted fallback).palettes ∧
      (a.inventory fallback).2 = (a.sorted fallback).warnings ∧
      (a.inventory fallback).1.Mirrors (a.sorted fallback).table := by
  have hfollows := Stocktaking.follows_ofArchive a
  have hpalettes : (Stocktaking.ofArchive a).inventory.palettes = (Sorting.ofArchive a).table.palettes := by
    rw [hfollows.inventory, Inventory.palettes_storeAll]
    rfl
  have hmirrors : (Stocktaking.ofArchive a).inventory.Mirrors (Sorting.ofArchive a).table := by
    obtain ⟨last, hlast⟩ := (Sorting.Reached.start (a := a)).reached_visitAll
    rw [hfollows.inventory]
    exact hlast.mirrors
  unfold Archive.inventory Archive.sorted
  dsimp only
  rw [hpalettes, hfollows.ranges, hfollows.warnings]
  cases hempty : (Sorting.ofArchive a).table.palettes.isEmpty with
  | false => exact ⟨hpalettes, (List.append_nil _).symm, hmirrors⟩
  | true =>
    cases fallback with
    | none => exact ⟨rfl, rfl, hmirrors.withPalettes _⟩
    | some palette => exact ⟨rfl, (List.append_nil _).symm, hmirrors.withPalettes _⟩

open Stocktaking in
/-- What an inventory keeps in several places agrees. A name with a kind has exactly one place of the directory with
a kind, which is the same one, and a place with a kind belongs to a name that has it. The names with bytes are those
of the unknown kind, and the bytes are those of their place. The names with an image are those of the kinds of
images: a picture file under its own kind, and a picture under the kind that is kept with it, so that no name has
bytes and an image. At every point of the taking, a name that has a kind keeps it, its image and its bytes to the
end, and its next places get none. -/
theorem Archive.inventory_views_agree (a : Archive) (fallback : Option Palette) :
    let v := (a.inventory fallback).1
    (∀ name k, v.category? name = some k → ∃ i, a.nameAt? i = some name ∧
      v.categoryAt? i = some k ∧
      ∀ j, a.nameAt? j = some name → (v.categoryAt? j).isSome → j = i) ∧
    (∀ i k, v.categoryAt? i = some k → ∃ name, a.nameAt? i = some name ∧
      v.category? name = some k) ∧
    (∀ name, (v.unknown? name).isSome ↔ v.category? name = some .unknown) ∧
    (∀ name bytes, v.unknown? name = some bytes ↔ ∃ i, a.nameAt? i = some name ∧
      v.categoryAt? i = some .unknown ∧ a.lump i = .ok bytes) ∧
    (∀ name, (v.image? name).isSome ↔
      v.category? name = some .png ∨ ∃ kind, v.category? name = some (.image kind)) ∧
    (∀ name, (∃ bytes, v.image? name = some (.png bytes)) ↔ v.category? name = some .png) ∧
    (∀ name k p, v.image? name = some (.picture k p) → v.category? name = some k) ∧
    (∀ name, ¬ ((v.unknown? name).isSome ∧ (v.image? name).isSome)) ∧
    (∀ s index rest, Reached a s index rest → ∀ name, (s.inventory.category? name).isSome →
      v.category? name = s.inventory.category? name ∧ v.image? name = s.inventory.image? name ∧
        v.unknown? name = s.inventory.unknown? name) ∧
    (∀ s index e following, Reached a s index (e :: following) →
      (s.inventory.category? e.name).isSome → v.categoryAt? index = none) := by
  intro v
  obtain ⟨-, -, hmirrors⟩ := a.inventory_mirrors_sorted fallback
  obtain ⟨hplace, hname, hraw, hbytes, himage, hpng, hpicture, hone, hkept, hnone⟩ := a.sorted_views_agree fallback
  simp only [show ∀ name, v.category? name = _ from hmirrors.category?,
    show ∀ index, v.categoryAt? index = _ from hmirrors.categoryAt?,
    show ∀ name, v.image? name = _ from hmirrors.image?, show ∀ name, v.unknown? name = _ from hmirrors.unknown?,
    Option.isSome_map]
  refine ⟨hplace, hname, hraw, hbytes, himage, fun name => ?_, fun name k p hfound => ?_, hone,
    fun s index rest hreached name hsome => ?_, fun s index e following hreached hsome => ?_⟩
  · rw [← hpng]
    simp only [Option.map_eq_some_iff, TableImage.stocked_eq_png_iff, exists_eq_right]
  · obtain ⟨image, himage, hstocked⟩ := Option.map_eq_some_iff.mp hfound
    obtain ⟨kind, rfl, rfl⟩ := TableImage.stocked_eq_picture_iff.mp hstocked
    exact hpicture name kind p himage
  · obtain ⟨t, ht, hmirrored⟩ := hreached.exists_mirrors
    rw [hmirrored.category?] at hsome ⊢
    rw [hmirrored.image?, hmirrored.unknown?]
    -- What a name has follows from its content, which stays.
    obtain ⟨c, hc⟩ := Option.isSome_iff_exists.mp (Option.isSome_map.symm.trans hsome)
    have hlast := hkept t index rest ht name c hc
    simp only [LumpTable.category?, LumpTable.image?, LumpTable.raw?, hc, hlast, and_self]
  · obtain ⟨t, ht, hmirrored⟩ := hreached.exists_mirrors
    rw [hmirrored.category?] at hsome
    exact hnone t index e following ht hsome

open Stocktaking in
/-- A text that comes twice: its second place gets no kind, and its bytes are those of the first. -/
theorem Archive.inventory_views_agree_twice :
    let a : Archive := .wad ⟨⟨#[97, 98, 99, 100]⟩, [⟨"INTERA", 0, 2⟩, ⟨"INTERA", 2, 2⟩]⟩
    let s := ((Stocktaking.start 2).visit a 0 ⟨"INTERA", 0, 2⟩ [⟨"INTERA", 2, 2⟩]).1
    Reached a s 1 [⟨"INTERA", 2, 2⟩] ∧ (s.inventory.category? "INTERA").isSome ∧
      (a.inventory none).1.categoryAt? 1 = none ∧
      (a.inventory none).1.unknown? "INTERA" = some ⟨#[97, 98]⟩ := by
  intro a s
  have hreached : Reached a s 1 [⟨"INTERA", 2, 2⟩] := (Reached.start (a := a)).next
  have hbytes : s.inventory.unknown? "INTERA" = some ⟨#[97, 98]⟩ := rfl
  have hcategory : s.inventory.category? "INTERA" = some .unknown := rfl
  obtain ⟨_, _, _, _, _, _, _, _, hkept, hnone⟩ := a.inventory_views_agree none
  have hsome : (s.inventory.category? "INTERA").isSome := by rw [hcategory]; rfl
  obtain ⟨-, -, hunknown⟩ := hkept s 1 _ hreached "INTERA" hsome
  exact ⟨hreached, hsome, hnone s 1 _ _ hreached hsome, hunknown.trans hbytes⟩

end Interlude
