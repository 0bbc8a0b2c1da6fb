import Mathlib
import Interlude.LumpTable.Basic

/-!
# What a lump table tells about a name

The category, the image and the bytes of a name are views of the one content that the table keeps for
it. Filing adds a content for a name that has none and leaves a table alone otherwise, so that a
content which is there stays.
-/

namespace Interlude

/-- An image as a lump table hands it out. -/
inductive TableImage where
  | png (bytes : ByteArray)
  | picture (kind : ImageKind) (picture : Picture)

namespace Content

/-- The image that a content is. -/
def image? : Content → Option TableImage
  | png bytes => some (.png bytes)
  | picture kind p => some (.picture kind p)
  | _ => none

/-- How a content comes from the bytes of a lump: bytes are kept as they are, and pictures are decoded
from them. -/
def IsOf (bytes : ByteArray) : Content → Prop
  | png kept => kept = bytes ∧ Png.isFile bytes = true
  | picture .flat p => p = Picture.ofFlat bytes
  | picture _ p => Picture.decode? bytes = some p
  | raw kept => kept = bytes
  | map => False
  | _ => True

/-- A content of which only the name of the lump is known comes from its bytes. -/
theorem isOf_ofBytes (bytes : ByteArray) : (ofBytes bytes).IsOf bytes := by
  unfold ofBytes
  split
  · rename_i hfile
    exact ⟨rfl, hfile⟩
  · cases hdecoded : Picture.decode? bytes with
    | none => rfl
    | some p => exact hdecoded

/-- A content of a range comes from the bytes of its lump. -/
theorem isOf_ofRange (kind : RangeKind) (bytes : ByteArray) : (ofRange kind bytes).IsOf bytes := by
  unfold ofRange
  split
  · rename_i hfile
    exact ⟨rfl, hfile⟩
  · cases kind with
    | flat => rfl
    | sprite =>
      cases hdecoded : Picture.decode? bytes with
      | none => rfl
      | some p => exact hdecoded
    | patch =>
      cases hdecoded : Picture.decode? bytes with
      | none => rfl
      | some p => exact hdecoded

/-- A content under the name of a patch comes from the bytes of its lump. -/
theorem isOf_ofPatch (bytes : ByteArray) : (ofPatch bytes).IsOf bytes := by
  unfold ofPatch
  cases hdecoded : Picture.decode? bytes with
  | none => exact isOf_ofBytes bytes
  | some p => exact hdecoded

/-- The categories of images are those of pictures and of picture files. -/
theorem isSome_image?_iff (c : Content) :
    c.image?.isSome ↔ c.category = .png ∨ ∃ kind, c.category = .image kind := by
  cases c <;> simp [image?, category]

/-- An image that is a file is found exactly under its own category. -/
theorem exists_image?_eq_png_iff (c : Content) :
    (∃ bytes, c.image? = some (.png bytes)) ↔ c.category = .png := by
  cases c <;> simp [image?, category]

/-- A picture is found under the category of its kind. -/
theorem category_of_image?_eq_picture {c : Content} {kind : ImageKind} {p : Picture}
    (h : c.image? = some (.picture kind p)) : c.category = .image kind := by
  cases c <;> simp_all [image?, category]

/-- The unknown contents are those that are just bytes. -/
theorem category_eq_unknown_iff (c : Content) : c.category = .unknown ↔ ∃ bytes, c = .raw bytes := by
  cases c <;> simp [category]

end Content

namespace LumpTable

/-- The image of a name. -/
def image? (t : LumpTable) (name : String) : Option TableImage :=
  (t.content? name).bind Content.image?

variable {t : LumpTable} {name : String}

/-- Looking for a key that does not repeat finds the one item that has it. -/
private theorem find?_key_eq_some_iff {κ : Type} [BEq κ] [LawfulBEq κ] {key : Filed → κ}
    {filed : List Filed} (hnodup : (filed.map key).Nodup) {k : κ} {f : Filed} :
    filed.find? (fun g => key g == k) = some f ↔ f ∈ filed ∧ key f = k := by
  constructor
  · intro hfound
    have hkey := List.find?_some hfound
    exact ⟨List.mem_of_find?_eq_some hfound, eq_of_beq hkey⟩
  · rintro ⟨hf, rfl⟩
    cases hfound : filed.find? fun g => key g == key f with
    | none =>
      have hmissed := List.find?_eq_none.mp hfound f hf
      exact absurd (beq_self_eq_true (key f)) hmissed
    | some g =>
      have hkey := List.find?_some hfound
      rw [List.inj_on_of_nodup_map hnodup (List.mem_of_find?_eq_some hfound) hf (eq_of_beq hkey)]

/-- The content of a name is the one that is filed under it. -/
theorem content?_eq_some_iff {c : Content} :
    t.content? name = some c ↔ ∃ f ∈ t.filed, f.name = name ∧ f.content = c := by
  unfold content?
  simp only [Option.map_eq_some_iff, find?_key_eq_some_iff t.nodup, and_assoc]

/-- The category of a name is that of the content filed under it. -/
theorem category?_eq_some_iff {k : Category} :
    t.category? name = some k ↔ ∃ f ∈ t.filed, f.name = name ∧ f.content.category = k := by
  unfold category?
  simp only [Option.map_eq_some_iff, content?_eq_some_iff]
  constructor
  · rintro ⟨_, ⟨f, hf, hname, rfl⟩, hk⟩
    exact ⟨f, hf, hname, hk⟩
  · rintro ⟨f, hf, hname, hk⟩
    exact ⟨f.content, ⟨f, hf, hname, rfl⟩, hk⟩

/-- The bytes of a name are those of a content that is just bytes. -/
theorem raw?_eq_some_iff {bytes : ByteArray} :
    t.raw? name = some bytes ↔ t.content? name = some (.raw bytes) := by
  unfold raw?
  split
  · rename_i kept hkept
    simp [hkept]
  · rename_i hother
    constructor
    · exact fun h => nomatch h
    · exact fun h => absurd h (hother bytes)

/-- A name has bytes exactly if it is of the unknown category. -/
theorem isSome_raw?_iff : (t.raw? name).isSome ↔ t.category? name = some .unknown := by
  simp only [Option.isSome_iff_exists, raw?_eq_some_iff, category?, Option.map_eq_some_iff,
    Content.category_eq_unknown_iff]
  constructor
  · rintro ⟨bytes, hcontent⟩
    exact ⟨_, hcontent, bytes, rfl⟩
  · rintro ⟨_, hcontent, bytes, rfl⟩
    exact ⟨bytes, hcontent⟩

/-- The image of a name is that of its content. -/
theorem image?_eq_some_iff {i : TableImage} :
    t.image? name = some i ↔ ∃ c, t.content? name = some c ∧ c.image? = some i :=
  Option.bind_eq_some_iff

/-- A name has an image exactly if it is of one of the categories of images. -/
theorem isSome_image?_iff : (t.image? name).isSome ↔
    t.category? name = some .png ∨ ∃ kind, t.category? name = some (.image kind) := by
  unfold image? category?
  cases t.content? name with
  | none => simp
  | some c => simpa using Content.isSome_image?_iff c

/-- A name has a picture file exactly if that is its category. -/
theorem exists_image?_eq_png_iff :
    (∃ bytes, t.image? name = some (.png bytes)) ↔ t.category? name = some .png := by
  unfold image? category?
  cases t.content? name with
  | none => simp
  | some c => simpa using Content.exists_image?_eq_png_iff c

/-- The picture of a name has the kind that its category tells. -/
theorem category?_of_image?_eq_picture {kind : ImageKind} {p : Picture}
    (h : t.image? name = some (.picture kind p)) : t.category? name = some (.image kind) := by
  obtain ⟨c, hcontent, himage⟩ := image?_eq_some_iff.mp h
  rw [category?, hcontent, Option.map_some, Content.category_of_image?_eq_picture himage]

/-! ### Filing -/

variable (index : Nat) (content : Content)

/-- A name that has a content keeps it. -/
theorem file_of_isFiled (h : t.isFiled name = true) : t.file index name content = t := by
  rw [file, dif_pos h]

/-- A name without a content gets one, after all others. -/
theorem filed_file_of_not_isFiled (h : t.isFiled name = false) :
    (t.file index name content).filed = t.filed ++ [⟨index, name, content⟩] := by
  rw [file, dif_neg (Bool.eq_false_iff.mp h)]

/-- Filing keeps all that was filed. -/
theorem mem_filed_file {f : Filed} (hf : f ∈ t.filed) : f ∈ (t.file index name content).filed := by
  cases h : t.isFiled name with
  | true => rwa [file_of_isFiled index content h]
  | false =>
    rw [filed_file_of_not_isFiled index content h]
    exact List.mem_append_left _ hf

/-! ### Places -/

/-- The places in the directory come in order in a table that is filled in one pass. -/
def InOrder (t : LumpTable) : Prop :=
  t.filed.Pairwise fun f g => f.index < g.index

/-- In a table in order, a place belongs to one content. -/
theorem InOrder.nodup_index (h : t.InOrder) : (t.filed.map Filed.index).Nodup :=
  List.pairwise_map.mpr (h.imp fun hlt => Nat.ne_of_lt hlt)

/-- The content of the lump at a place; none if it was not filed. -/
def contentAt? (t : LumpTable) (index : Nat) : Option Content :=
  (t.filed.find? fun f => f.index == index).map Filed.content

/-- The category at a place is that of the content there. -/
theorem categoryAt?_eq_map : t.categoryAt? index = (t.contentAt? index).map Content.category := by
  rw [categoryAt?, contentAt?, Option.map_map]
  rfl

/-- The content at a place is the one that is filed under it. -/
theorem InOrder.contentAt?_eq_some_iff (h : t.InOrder) {c : Content} :
    t.contentAt? index = some c ↔ ∃ f ∈ t.filed, f.index = index ∧ f.content = c := by
  unfold contentAt?
  simp only [Option.map_eq_some_iff, find?_key_eq_some_iff h.nodup_index, and_assoc]

/-- The category at a place is that of the content found there. -/
theorem InOrder.categoryAt?_eq_some_iff (h : t.InOrder) {k : Category} :
    t.categoryAt? index = some k ↔ ∃ f ∈ t.filed, f.index = index ∧ f.content.category = k := by
  unfold categoryAt?
  simp only [Option.map_eq_some_iff, find?_key_eq_some_iff h.nodup_index, and_assoc]

end LumpTable

end Interlude
