import Mathlib
import Interlude.LumpTable.Inventory
import Interlude.Proofs.LumpTable.Filing

/-!
# The inventory of a lump table

The contents of a lump table can be stored in an inventory, one after the other. What is written takes the place of
what was there, but in a table no name and no place in the directory comes twice. So nothing is lost: the inventory
tells of every name and of every place what the table does.
-/

namespace Interlude

/-- The image as an inventory keeps it. -/
def TableImage.stocked : TableImage → InventoryImage
  | .png bytes => .png bytes
  | .picture kind p => .picture (.image kind) p

/-- Only a picture file is kept as one. -/
theorem TableImage.stocked_eq_png_iff {i : TableImage} {bytes : ByteArray} :
    i.stocked = .png bytes ↔ i = .png bytes := by
  cases i <;> simp [stocked]

/-- Only a picture is kept as one, with the kind of its images. -/
theorem TableImage.stocked_eq_picture_iff {i : TableImage} {k : Category} {p : Picture} :
    i.stocked = .picture k p ↔ ∃ kind, i = .picture kind p ∧ k = .image kind := by
  cases i <;> simp [stocked, eq_comm, and_comm]

/-- The bytes of a content that is nothing else. -/
def Content.raw? : Content → Option ByteArray
  | raw bytes => some bytes
  | _ => none

namespace Inventory

/-! ### Storing contents -/

/-- Keeps a content under a name. -/
def keep (v : Inventory) (name : String) : Content → Inventory
  | .palettes palettes => { v with palettes := v.palettes ++ palettes }
  | .colormaps maps => { v with colormaps := v.colormaps ++ maps }
  | .endoom screen => { v with screen := some screen }
  | .patchNames names => { v with patchNames := v.patchNames ++ names }
  | .textures textures => { v with textures := v.textures ++ textures }
  | .map => { v with maps := v.maps ++ [name] }
  | .picture kind p => { v with images := v.images.insert name (.picture (.image kind) p) }
  | .png bytes => { v with images := v.images.insert name (.png bytes) }
  | .raw bytes => { v with unknown := v.unknown.insert name bytes }

/-- Stores a content, and gives its name and its place a kind. -/
def store (v : Inventory) (f : Filed) : Inventory :=
  (v.keep f.name f.content).assign f.index f.name f.content.category

/-- Stores contents, one after the other. -/
def storeAll (v : Inventory) (filed : List Filed) : Inventory :=
  filed.foldl store v

variable {v : Inventory} {f : Filed} {filed : List Filed} (index : Nat) (name : String)

/-- After all others, one more content is stored. -/
theorem storeAll_concat (v : Inventory) (filed : List Filed) (f : Filed) :
    v.storeAll (filed ++ [f]) = (v.storeAll filed).store f := by
  rw [storeAll, List.foldl_append, List.foldl_cons, List.foldl_nil, storeAll]

/-- Bytes of which only the name is known are stored as what they are. -/
theorem storeOther_eq_store (v : Inventory) (bytes : ByteArray) :
    v.storeOther index name bytes = v.store ⟨index, name, .ofBytes bytes⟩ := by
  unfold storeOther Content.ofBytes
  split
  · rfl
  · cases Picture.decode? bytes <;> rfl

/-- Bytes in a range are stored as what they are there. -/
theorem storeInRange_eq_store (v : Inventory) (kind : RangeKind) (bytes : ByteArray) :
    v.storeInRange index name kind bytes = v.store ⟨index, name, .ofRange kind bytes⟩ := by
  unfold storeInRange
  rw [storeOther_eq_store]
  unfold Content.ofRange Content.ofBytes
  split
  · rfl
  · cases kind with
    | flat => rfl
    | sprite =>
      dsimp only [pictureInRange?]
      cases Picture.decode? bytes <;> rfl
    | patch =>
      dsimp only [pictureInRange?]
      cases Picture.decode? bytes <;> rfl

/-- Bytes under a name in the list of patches are stored as what they are there. -/
theorem storePatch_eq_store (v : Inventory) (bytes : ByteArray) :
    v.storePatch index name bytes = v.store ⟨index, name, .ofPatch bytes⟩ := by
  unfold storePatch Content.ofPatch
  rw [storeOther_eq_store]
  cases Picture.decode? bytes <;> rfl

/-! ### What one more content changes -/

/-- Keeping a content gives no name a kind. -/
@[simp] theorem categories_keep (v : Inventory) (c : Content) : (v.keep name c).categories = v.categories := by
  cases c <;> rfl

/-- Keeping a content gives no place a kind. -/
@[simp] theorem places_keep (v : Inventory) (c : Content) : (v.keep name c).places = v.places := by
  cases c <;> rfl

/-- The kind of a content is that of its name from now on. -/
theorem category?_store (v : Inventory) (f : Filed) :
    (v.store f).category? name = if f.name = name then some f.content.category else v.category? name := by
  rw [category?, store, assign, Shelf.find?_insert, categories_keep]
  simp only [eq_comm, category?]

/-- Storing makes no room for further places. -/
theorem length_places_store (v : Inventory) (f : Filed) : (v.store f).places.length = v.places.length := by
  rw [store, assign, List.length_set, places_keep]

/-- The kind of a content is that of its place from now on. -/
theorem categoryAt?_store (hindex : f.index < v.places.length) :
    (v.store f).categoryAt? index = if f.index = index then some f.content.category else v.categoryAt? index := by
  rw [categoryAt?, store, assign, List.getElem?_set, places_keep, if_pos hindex]
  split <;> rfl

/-- The image of a content is that of its name from now on. -/
theorem image?_store (v : Inventory) (f : Filed) :
    (v.store f).image? name =
      if f.name = name then (f.content.image?.map TableImage.stocked).or (v.image? name) else v.image? name := by
  unfold store assign image?
  cases f.content <;> simp [keep, Content.image?, TableImage.stocked, eq_comm]

/-- The bytes of a content that is nothing else are those of its name from now on. -/
theorem unknown?_store (v : Inventory) (f : Filed) :
    (v.store f).unknown? name =
      if f.name = name then f.content.raw?.or (v.unknown? name) else v.unknown? name := by
  unfold store assign unknown?
  cases f.content <;> simp [keep, Content.raw?, eq_comm]

/-- The exit screen of a content takes the place of the one before it. -/
theorem screen_store (v : Inventory) (f : Filed) : (v.store f).screen = f.content.screen?.or v.screen := by
  unfold store assign
  cases f.content <;> rfl

/-! ### What all contents change -/

/-- What is found by a key is a part of the one content that has this key, if every content puts its part in the
place of what was found and no key comes twice. -/
theorem find_storeAll {α κ : Type} [DecidableEq κ] (find : Inventory → Option α) (part : Content → Option α)
    (key : Filed → κ) (k : κ) (hv : find v = none) (hnodup : (filed.map key).Nodup)
    (hstore : ∀ w : Inventory, w.places.length = v.places.length → ∀ f ∈ filed,
      find (w.store f) = if key f = k then (part f.content).or (find w) else find w) :
    find (v.storeAll filed) = (filed.find? fun f => key f == k).bind fun f => part f.content := by
  suffices hlength : (v.storeAll filed).places.length = v.places.length ∧
      find (v.storeAll filed) = (filed.find? fun f => key f == k).bind fun f => part f.content from hlength.2
  induction filed using List.reverseRecOn with
  | nil => exact ⟨rfl, hv⟩
  | append_singleton filed f ih =>
    rw [List.map_append, List.map_singleton, List.nodup_append_comm, List.singleton_append, List.nodup_cons] at hnodup
    obtain ⟨hlength, ih⟩ := ih hnodup.2 fun w hw g hg => hstore w hw g (List.mem_append_left _ hg)
    rw [storeAll_concat, length_places_store, hstore _ hlength f List.mem_concat_self, ih, List.find?_append]
    refine ⟨hlength, ?_⟩
    by_cases hkey : key f = k
    · have hnone : (filed.find? fun g => key g == k) = none := by
        refine List.find?_eq_none.mpr fun g hg hgk => hnodup.1 (List.mem_map.mpr ⟨g, hg, ?_⟩)
        exact (eq_of_beq hgk).trans hkey.symm
      simp [hkey, hnone]
    · simp [hkey]

/-- What every content adds something to is what was there and what the contents add. -/
theorem list_storeAll {α : Type} {list : Inventory → List α} {part : Filed → List α}
    (hstore : ∀ v f, list (v.store f) = list v ++ part f) (v : Inventory) (filed : List Filed) :
    list (v.storeAll filed) = list v ++ filed.flatMap part := by
  induction filed generalizing v with
  | nil => rw [List.flatMap_nil, List.append_nil]; rfl
  | cons f filed ih =>
    change list ((v.store f).storeAll filed) = _
    rw [ih, hstore, List.flatMap_cons, List.append_assoc]

/-- The palettes are those of the contents. -/
theorem palettes_storeAll (v : Inventory) (filed : List Filed) :
    (v.storeAll filed).palettes = v.palettes ++ filed.flatMap (·.content.paletteList) := by
  refine list_storeAll (fun v f => ?_) v filed
  unfold store assign
  cases f.content <;> simp [keep, Content.paletteList]

/-! ### Inventories that mirror a table -/

/-- An inventory tells of all but the palettes what a table does. -/
structure Mirrors (v : Inventory) (t : LumpTable) : Prop where
  colormaps : v.colormaps = t.colormaps
  screen : v.screen = t.screen?
  patchNames : v.patchNames = t.patchNames
  textures : v.textures = t.textures
  maps : v.maps = t.maps
  image? : ∀ name, v.image? name = (t.image? name).map TableImage.stocked
  unknown? : ∀ name, v.unknown? name = t.raw? name
  category? : ∀ name, v.category? name = t.category? name
  categoryAt? : ∀ index, v.categoryAt? index = t.categoryAt? index

variable {t : LumpTable} (count : Nat)

/-- With its contents stored, the kind of a name is that in a table. -/
theorem category?_storeAll (t : LumpTable) :
    ((blank count).storeAll t.filed).category? name = t.category? name := by
  rw [find_storeAll (fun v => v.category? name) (fun c => some c.category) Filed.name name rfl t.nodup
    fun w _ f _ => by rw [Option.some_or]; exact category?_store name w f]
  rw [LumpTable.category?, LumpTable.content?, Option.map_map, Option.map_eq_bind]
  rfl

/-- With its contents stored, the image of a name is that in a table. -/
theorem image?_storeAll (t : LumpTable) :
    ((blank count).storeAll t.filed).image? name = (t.image? name).map TableImage.stocked := by
  rw [find_storeAll (fun v => v.image? name) (fun c => c.image?.map TableImage.stocked) Filed.name name rfl t.nodup
    fun w _ f _ => image?_store name w f]
  rw [LumpTable.image?, LumpTable.content?, Option.bind_map, Option.map_bind]
  rfl

/-- With its contents stored, the bytes of a name that is nothing else are those in a table. -/
theorem unknown?_storeAll (t : LumpTable) :
    ((blank count).storeAll t.filed).unknown? name = t.raw? name := by
  rw [find_storeAll (fun v => v.unknown? name) Content.raw? Filed.name name rfl t.nodup
    fun w _ f _ => unknown?_store name w f]
  rw [LumpTable.raw?, LumpTable.content?]
  cases t.filed.find? fun f => f.name == name with
  | none => rfl
  | some f => cases hcontent : f.content <;> simp [Content.raw?, hcontent]

/-- With its contents stored, the kind of a place is that in a table, if they come in order. -/
theorem categoryAt?_storeAll {t : LumpTable} (horder : t.InOrder) (hbelow : ∀ f ∈ t.filed, f.index < count) :
    ((blank count).storeAll t.filed).categoryAt? index = t.categoryAt? index := by
  have hblank : (blank count).categoryAt? index = none := by
    rw [categoryAt?, blank, List.getElem?_replicate]
    split <;> rfl
  rw [find_storeAll (fun v => v.categoryAt? index) (fun c => some c.category) Filed.index index hblank
    horder.nodup_index fun w hw f hf => by
      rw [Option.some_or]
      refine categoryAt?_store index ?_
      rw [hw, blank, List.length_replicate]
      exact hbelow f hf]
  rw [LumpTable.categoryAt?, Option.map_eq_bind]
  rfl

/-- Exit screens have one name alone. -/
def ScreensAreNamed (t : LumpTable) : Prop :=
  ∀ f ∈ t.filed, f.content.screen?.isSome → f.name = "ENDOOM"

/-- With its contents stored, the exit screen is that of a table, in which there is no other. -/
theorem screen_storeAll {t : LumpTable} (hnamed : ScreensAreNamed t) :
    ((blank count).storeAll t.filed).screen = t.screen? := by
  have hscreen {f : Filed} (hf : f ∈ t.filed) (hname : f.name ≠ "ENDOOM") : f.content.screen? = none :=
    Option.not_isSome_iff_eq_none.mp fun hsome => hname (hnamed f hf hsome)
  rw [find_storeAll Inventory.screen Content.screen? Filed.name "ENDOOM" rfl t.nodup
    fun w _ f hf => by
      rw [screen_store]
      split
      · rfl
      · rename_i hname
        rw [hscreen hf hname, Option.none_or]]
  have hfound : (t.content? "ENDOOM").bind Content.screen? = t.screen? := by
    cases hfirst : t.screen? with
    | none =>
      refine Option.bind_eq_none_iff.mpr fun c hc => ?_
      obtain ⟨f, hf, -, rfl⟩ := LumpTable.content?_eq_some_iff.mp hc
      exact List.findSome?_eq_none_iff.mp hfirst f hf
    | some screen =>
      obtain ⟨f, hf, hcontent⟩ := List.exists_of_findSome?_eq_some hfirst
      have hname := hnamed f hf (by rw [hcontent]; rfl)
      exact Option.bind_eq_some_iff.mpr ⟨f.content, LumpTable.content?_eq_some_iff.mpr ⟨f, hf, hname, rfl⟩, hcontent⟩
  rw [← hfound, LumpTable.content?, Option.bind_map]
  rfl

/-- With its contents stored, an inventory mirrors a table. -/
theorem mirrors_storeAll {t : LumpTable} (horder : t.InOrder) (hbelow : ∀ f ∈ t.filed, f.index < count)
    (hnamed : ScreensAreNamed t) : ((blank count).storeAll t.filed).Mirrors t where
  colormaps := by
    refine list_storeAll (fun v f => ?_) _ t.filed
    unfold store assign
    cases f.content <;> simp [keep, Content.colormapList]
  screen := screen_storeAll count hnamed
  patchNames := by
    refine list_storeAll (fun v f => ?_) _ t.filed
    unfold store assign
    cases f.content <;> simp [keep, Content.patchNameList]
  textures := by
    refine list_storeAll (fun v f => ?_) _ t.filed
    unfold store assign
    cases f.content <;> simp [keep, Content.textureList]
  maps := by
    have hmaps : t.maps = t.filed.flatMap fun f => if f.content.category = .map then [f.name] else [] := by
      unfold LumpTable.maps
      induction t.filed with
      | nil => rfl
      | cons f filed ih => by_cases hmap : f.content.category = .map <;> simp [hmap, ih]
    rw [hmaps]
    refine list_storeAll (fun v f => ?_) _ t.filed
    unfold store assign
    cases f.content <;> simp [keep, Content.category]
  image? name := image?_storeAll name count t
  unknown? name := unknown?_storeAll name count t
  category? name := category?_storeAll name count t
  categoryAt? index := categoryAt?_storeAll index count horder hbelow

end Inventory

end Interlude
