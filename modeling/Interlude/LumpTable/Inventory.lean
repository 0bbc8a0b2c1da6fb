import Interlude.LumpTable.Sorting

/-!
# Taking an inventory

An inventory tells what a lump is in several places at once: it keeps the image of a name or its bytes, the kind of
the name, and the kind of the place in the directory. Each of them is written on its own, and what is written takes
the place of what was there. That they agree, and that nothing is lost, is due to the way in which an inventory is
taken alone: a lump whose name has a kind is passed over.
-/

namespace Interlude

/-- What is kept by name. -/
structure Shelf (α : Type) where
  items : List (String × α)

namespace Shelf

variable {α : Type}

/-- What is kept under a name. -/
def find? (shelf : Shelf α) (name : String) : Option α :=
  shelf.items.lookup name

/-- Keeps an item in place of the one that has its name. -/
def insert (shelf : Shelf α) (name : String) (item : α) : Shelf α :=
  ⟨(name, item) :: shelf.items.filter fun other => other.1 != name⟩

/-- Leaving out a name leaves what is kept under the others. -/
theorem lookup_filter_ne {name other : String} (h : other ≠ name) (items : List (String × α)) :
    (items.filter fun item => item.1 != name).lookup other = items.lookup other := by
  induction items with
  | nil => rfl
  | cons first items ih =>
    obtain ⟨key, item⟩ := first
    by_cases hkey : key = name
    · rw [List.filter_cons_of_neg (by simp [hkey]), ih, List.lookup_cons, beq_false_of_ne (hkey ▸ h)]
    · rw [List.filter_cons_of_pos (by simp [hkey]), List.lookup_cons, List.lookup_cons, ih]

/-- An item is found under its name, and all others under theirs. -/
@[simp] theorem find?_insert (shelf : Shelf α) (name other : String) (item : α) :
    (shelf.insert name item).find? other = if other = name then some item else shelf.find? other := by
  by_cases h : other = name
  · simp [find?, insert, h]
  · rw [if_neg h, find?, insert, List.lookup_cons, beq_false_of_ne h]
    exact lookup_filter_ne h shelf.items

end Shelf

/-- An image in an inventory. -/
inductive InventoryImage where
  | picture (category : Category) (picture : Picture)
  /-- A picture that is a file of its own. -/
  | png (bytes : ByteArray)

/-- What was found in an archive, by what it is. -/
structure Inventory where
  palettes : List Palette
  colormaps : List (List UInt8)
  screen : Option Screen
  patchNames : List String
  textures : List Texture
  maps : List String
  images : Shelf InventoryImage
  /-- The bytes of what is nothing else. -/
  unknown : Shelf ByteArray
  /-- The kinds of names. -/
  categories : Shelf Category
  /-- The kinds of the places in the directory. -/
  places : List (Option Category)

namespace Inventory

/-- Nothing was found in a directory of so many places. -/
def blank (count : Nat) : Inventory where
  palettes := []
  colormaps := []
  screen := none
  patchNames := []
  textures := []
  maps := []
  images := ⟨[]⟩
  unknown := ⟨[]⟩
  categories := ⟨[]⟩
  places := List.replicate count none

/-- The image of a name. -/
def image? (v : Inventory) (name : String) : Option InventoryImage :=
  v.images.find? name

/-- The bytes of a name that is nothing else. -/
def unknown? (v : Inventory) (name : String) : Option ByteArray :=
  v.unknown.find? name

/-- The kind of a name. -/
def category? (v : Inventory) (name : String) : Option Category :=
  v.categories.find? name

/-- The kind of a place in the directory. -/
def categoryAt? (v : Inventory) (index : Nat) : Option Category :=
  v.places[index]?.join

/-! ### Writing -/

/-- Gives a name and its place a kind. -/
def assign (v : Inventory) (index : Nat) (name : String) (category : Category) : Inventory :=
  { v with categories := v.categories.insert name category
           places := v.places.set index (some category) }

/-- Stores a picture of a kind. -/
def storePicture (v : Inventory) (index : Nat) (name : String) (category : Category) (picture : Picture) :
    Inventory :=
  { v with images := v.images.insert name (.picture category picture) }.assign index name category

/-- Stores a picture file. -/
def storePng (v : Inventory) (index : Nat) (name : String) (bytes : ByteArray) : Inventory :=
  { v with images := v.images.insert name (.png bytes) }.assign index name .png

/-- Stores bytes of which only the name is known: a picture file, or else a picture, or else just bytes. -/
def storeOther (v : Inventory) (index : Nat) (name : String) (bytes : ByteArray) : Inventory :=
  if Png.isFile bytes then v.storePng index name bytes
  else match Picture.decode? bytes with
    | some picture => v.storePicture index name (.image .graphic) picture
    | none => { v with unknown := v.unknown.insert name bytes }.assign index name .unknown

/-- The picture of a range that bytes hold. -/
def pictureInRange? (kind : RangeKind) (bytes : ByteArray) : Option Picture :=
  match kind with
  | .flat => some (Picture.ofFlat bytes)
  | _ => Picture.decode? bytes

/-- Stores bytes in a range: a picture file, or else a picture of the range, or else what they are elsewhere. -/
def storeInRange (v : Inventory) (index : Nat) (name : String) (kind : RangeKind) (bytes : ByteArray) : Inventory :=
  if Png.isFile bytes then v.storePng index name bytes
  else match pictureInRange? kind bytes with
    | some picture => v.storePicture index name (.image kind.imageKind) picture
    | none => v.storeOther index name bytes

/-- Stores bytes under a name in the list of patches. -/
def storePatch (v : Inventory) (index : Nat) (name : String) (bytes : ByteArray) : Inventory :=
  match Picture.decode? bytes with
  | some picture => v.storePicture index name (.image .patch) picture
  | none => v.storeOther index name bytes

end Inventory

/-- How far the taking of an inventory has come. -/
structure Stocktaking where
  inventory : Inventory
  /-- The names in the lists of patches so far, in upper case. -/
  patches : List String
  /-- The open ranges, the innermost one first. -/
  ranges : List OpenRange
  warnings : List SortWarning

namespace Stocktaking

/-- Nothing is taken yet of a directory of so many places. -/
def start (count : Nat) : Stocktaking := ⟨.blank count, [], [], []⟩

/-- Adds a warning. -/
def warn (s : Stocktaking) (w : SortWarning) : Stocktaking :=
  { s with warnings := s.warnings ++ [w] }

/-- Opens the range of a marker. -/
def openRange (s : Stocktaking) (marker terminator : String) : Stocktaking :=
  { s with ranges := ⟨.ofMarker marker, terminator⟩ :: s.ranges }

/-- Goes on with the bytes of a lump, or warns that it could not be read. -/
def withBytes (s : Stocktaking) (a : Archive) (index : Nat) (next : ByteArray → Stocktaking) : Stocktaking :=
  match a.lump index with
  | .error e => s.warn (.unreadable index e)
  | .ok bytes => next bytes

/-- Stores what the bytes of a lump are, or warns that it could not be read. -/
def storeLump (s : Stocktaking) (a : Archive) (index : Nat) (store : Inventory → ByteArray → Inventory) :
    Stocktaking :=
  s.withBytes a index fun bytes => { s with inventory := store s.inventory bytes }

/-- Takes in a list of patches. A broken one is left out. -/
def storePatchNames (s : Stocktaking) (index : Nat) (name : String) (bytes : ByteArray) : Stocktaking :=
  match Lump.readPatchNames bytes with
  | .ok names =>
    { s with
      patches := s.patches ++ names.map Text.upper
      inventory :=
        { s.inventory with patchNames := s.inventory.patchNames ++ names }.assign index name .patchNames }
  | .error e => s.warn (.badPatchNames e)

/-- Takes in a list of textures. A broken one is stored as other bytes are. -/
def storeTextures (s : Stocktaking) (index : Nat) (name : String) (bytes : ByteArray) : Stocktaking :=
  match Lump.readTextures bytes with
  | .ok textures =>
    { s with
      inventory := { s.inventory with textures := s.inventory.textures ++ textures }.assign index name .texture }
  | .error e =>
    { s.warn (.badTextures name e) with inventory := s.inventory.storeOther index name bytes }

/-- Takes in a map, and warns if some of its lumps are missing. -/
def storeMap (s : Stocktaking) (index : Nat) (name : String) (count : Nat) : Stocktaking :=
  let s := { s with
    inventory := { s.inventory with maps := s.inventory.maps ++ [name] }.assign index name .map }
  if count < geometryNames.length then s.warn (.shortMap name count) else s

/-- A lump outside every range. The number tells how many of the following lumps belong to it. -/
def visitOutside (s : Stocktaking) (a : Archive) (index : Nat) (name : String) (following : List LumpEntry) :
    Stocktaking × Nat :=
  if (s.inventory.category? name).isSome || isGeometry name || isEndMarker name then (s, 0)
  else
    match Rule.of name s.patches (a.folder? index) with
    | .palette =>
      (s.storeLump a index fun v bytes =>
        { v with palettes := v.palettes ++ Palette.readAll bytes }.assign index name .palette, 0)
    | .colormap =>
      (s.storeLump a index fun v bytes =>
        { v with colormaps := v.colormaps ++ readColormaps bytes }.assign index name .colormap, 0)
    | .endoom =>
      (s.storeLump a index fun v bytes =>
        { v with screen := some (Screen.ofLump bytes) }.assign index name .endoom, 0)
    | .patchNames => (s.withBytes a index (s.storePatchNames index name), 0)
    | .unparsed => (s, 0)
    | .inFolder kind => (s.storeLump a index fun v bytes => v.storeInRange index name kind bytes, 0)
    | .openRange _ terminator => (s.openRange name terminator, 0)
    | .patch => (s.storeLump a index fun v bytes => v.storePatch index name bytes, 0)
    | .mapBlock =>
      let count := Sorting.geometryRun following
      (s.storeMap index name count, count)
    | .texture => (s.withBytes a index (s.storeTextures index name), 0)
    | .other => (s.storeLump a index fun v bytes => v.storeOther index name bytes, 0)

/-- A lump in a range. In a range of patches only those in the list of patches count. -/
def visitInside (s : Stocktaking) (a : Archive) (index : Nat) (e : LumpEntry) (kind : RangeKind) : Stocktaking :=
  if e.size = 0 || (s.inventory.category? e.name).isSome then s
  else if kind = .patch && !s.patches.contains (Text.upper e.name) then s
  else s.storeLump a index fun v bytes => v.storeInRange index e.name kind bytes

/-- Takes the next lump, and tells how many of those that follow belong to it. -/
def visit (s : Stocktaking) (a : Archive) (index : Nat) (e : LumpEntry) (following : List LumpEntry) :
    Stocktaking × Nat :=
  match s.ranges with
  | [] => s.visitOutside a index e.name following
  | range :: outer =>
    if range.terminator = e.name then ({ s with ranges := outer }, 0)
    else match endMarker? e.name with
      | some terminator => (s.openRange e.name terminator, 0)
      | none => (s.visitInside a index e range.kind, 0)

/-- Takes the lumps from a place in the directory on. -/
def visitAll (a : Archive) (s : Stocktaking) (index : Nat) : List LumpEntry → Stocktaking
  | [] => s
  | e :: following =>
    let (s, count) := s.visit a index e following
    visitAll a s (index + 1 + count) (following.drop count)
termination_by entries => entries.length

/-- All lumps of an archive. -/
def ofArchive (a : Archive) : Stocktaking :=
  visitAll a (start a.entries.length) 0 a.entries

end Stocktaking

/-- The inventory of an archive, with the warnings that were given. A palette that is given stands in if the archive
has none, and shades of gray do if none is given. -/
def Archive.inventory (a : Archive) (fallback : Option Palette) : Inventory × List SortWarning :=
  let s := Stocktaking.ofArchive a
  let v := s.inventory
  let warnings := s.warnings ++ s.ranges.reverse.map fun r => SortWarning.neverClosed r.terminator
  if v.palettes.isEmpty then
    match fallback with
    | some palette => ({ v with palettes := [palette] }, warnings)
    | none => ({ v with palettes := [.grayscale] }, warnings ++ [.noPalette])
  else (v, warnings)

end Interlude
