import Mathlib
import Interlude.Proofs.LumpTable.Course

/-!
# What a lump is found to be

Outside every range the rule for its name makes a content of a lump, in a range its kind does, and a
marker that opens or closes a range is nothing. A lump adds to the table what it is found to be, and
nothing else. So the table tells what every lump was found to be, given the ranges that were open
before it and the part of the table that the lumps before it had filled.
-/

namespace Interlude

/-- What a rule makes of the bytes of a lump. A broken list of patches is nothing, a broken list of
textures is what other bytes are. -/
def Rule.contentOf? (bytes : ByteArray) : Rule → Option Content
  | .palette => some (.palettes (Palette.readAll bytes))
  | .colormap => some (.colormaps (readColormaps bytes))
  | .endoom => some (.endoom (Screen.ofLump bytes))
  | .patchNames => (Lump.readPatchNames bytes).toOption.map .patchNames
  | .inFolder kind => some (.ofRange kind bytes)
  | .patch => some (.ofPatch bytes)
  | .texture => some ((Lump.readTextures bytes).toOption.elim (.ofBytes bytes) .textures)
  | .other => some (.ofBytes bytes)
  | .unparsed | .openRange _ _ | .mapBlock => none

/-- What a rule makes of a lump that may be unreadable. A map is known by its name alone. -/
def Rule.content? (lump : Except ArchiveError ByteArray) : Rule → Option Content
  | .mapBlock => some .map
  | rule => lump.toOption.bind fun bytes => rule.contentOf? bytes

namespace LumpTable

/-- The names in the lists of patches, in upper case. -/
def patchKeys (t : LumpTable) : List String :=
  t.patchNames.map Text.upper

/-- What a lump outside every range is found to be. -/
def findOutside? (t : LumpTable) (a : Archive) (index : Nat) (name : String) : Option Content :=
  if t.isFiled name || isGeometry name || isEndMarker name then none
  else (Rule.of name t.patchKeys (a.folder? index)).content? (a.lump index)

/-- What a lump in a range is found to be. -/
def findInside? (t : LumpTable) (a : Archive) (index : Nat) (e : LumpEntry) (kind : RangeKind) :
    Option Content :=
  if e.size = 0 || t.isFiled e.name then none
  else if kind = .patch && !t.patchKeys.contains (Text.upper e.name) then none
  else (a.lump index).toOption.map (Content.ofRange kind)

/-- What a lump is found to be where some ranges are open, of which the innermost one comes first. -/
def find? (t : LumpTable) (ranges : List OpenRange) (a : Archive) (index : Nat) (e : LumpEntry) :
    Option Content :=
  match ranges with
  | [] => t.findOutside? a index e.name
  | range :: _ =>
    if range.terminator = e.name || (endMarker? e.name).isSome then none
    else t.findInside? a index e range.kind

variable {t : LumpTable} {a : Archive} {index : Nat} {c : Content}

/-- What a lump outside every range is found to be is what the rule for its name makes of it. -/
theorem findOutside?_eq_some_iff {name : String} :
    t.findOutside? a index name = some c ↔
      t.isFiled name = false ∧ isGeometry name = false ∧ isEndMarker name = false ∧
        (Rule.of name t.patchKeys (a.folder? index)).content? (a.lump index) = some c := by
  unfold findOutside?
  split
  · rename_i hpassed
    simp only [Bool.or_eq_true] at hpassed
    simp only [reduceCtorEq, false_iff]
    rintro ⟨hnew, hgeometry, hend, -⟩
    simp [hnew, hgeometry, hend] at hpassed
  · rename_i hpassed
    simp only [Bool.or_eq_true, not_or, Bool.not_eq_true] at hpassed
    obtain ⟨⟨hnew, hgeometry⟩, hend⟩ := hpassed
    simp only [hnew, hgeometry, hend, true_and]

/-- What a lump in a range is found to be is what the kind of the range makes of it. -/
theorem findInside?_eq_some_iff {e : LumpEntry} {kind : RangeKind} :
    t.findInside? a index e kind = some c ↔
      e.size ≠ 0 ∧ t.isFiled e.name = false ∧
        (kind = .patch → t.patchKeys.contains (Text.upper e.name) = true) ∧
        ∃ bytes, a.lump index = .ok bytes ∧ c = .ofRange kind bytes := by
  have hbytes : (a.lump index).toOption.map (Content.ofRange kind) = some c ↔
      ∃ bytes, a.lump index = .ok bytes ∧ c = .ofRange kind bytes := by
    cases a.lump index <;> simp [Except.toOption, eq_comm]
  unfold findInside?
  split
  · rename_i hpassed
    simp only [reduceCtorEq, false_iff]
    rintro ⟨hsize, hnew, -⟩
    simp [hsize, hnew] at hpassed
  · rename_i hpassed
    simp only [Bool.or_eq_true, decide_eq_true_eq, not_or, Bool.not_eq_true] at hpassed
    obtain ⟨hsize, hnew⟩ := hpassed
    split
    · rename_i hunlisted
      simp only [Bool.and_eq_true, decide_eq_true_eq, Bool.not_eq_true'] at hunlisted
      simp only [reduceCtorEq, false_iff]
      rintro ⟨-, -, hlisted, -⟩
      exact Bool.eq_false_iff.mp hunlisted.2 (hlisted hunlisted.1)
    · rename_i hlisted
      simp only [Bool.and_eq_true, decide_eq_true_eq, Bool.not_eq_true', not_and,
        Bool.not_eq_false] at hlisted
      rw [hbytes]
      exact ⟨fun h => ⟨hsize, hnew, hlisted, h⟩, fun h => h.2.2.2⟩

/-- In a range, all that is found to be something is neither the marker that ends the range nor one that
opens another. -/
theorem find?_cons_eq_some_iff {e : LumpEntry} {range : OpenRange} {outer : List OpenRange} :
    t.find? (range :: outer) a index e = some c ↔
      range.terminator ≠ e.name ∧ endMarker? e.name = none ∧
        t.findInside? a index e range.kind = some c := by
  unfold find?
  dsimp only
  split
  · rename_i hmarker
    simp only [Bool.or_eq_true, decide_eq_true_eq] at hmarker
    simp only [reduceCtorEq, false_iff]
    rintro ⟨hstop, hstart, -⟩
    simp [hstop, hstart] at hmarker
  · rename_i hmarker
    simp only [Bool.or_eq_true, decide_eq_true_eq, not_or, Bool.not_eq_true,
      Option.isSome_eq_false_iff, Option.isNone_iff_eq_none] at hmarker
    obtain ⟨hstop, hstart⟩ := hmarker
    exact ⟨fun h => ⟨hstop, hstart, h⟩, fun h => h.2.2⟩

end LumpTable

namespace Sorting

variable (a : Archive) (index : Nat) (s : Sorting)

/-- Filing what a lump holds files the content that comes with its bytes. -/
theorem table_fileLump (name : String) (content : ByteArray → Option Content × Option SortWarning) :
    (s.fileLump a index name content).table =
      ((a.lump index).toOption.bind fun bytes => (content bytes).1).elim s.table
        (s.table.file index name) := by
  unfold fileLump
  cases a.lump index with
  | error e => rfl
  | ok bytes =>
    change _ = ((content bytes).1).elim _ _
    dsimp only
    cases (content bytes).1 with
    | none => cases (content bytes).2 <;> rfl
    | some c => cases (content bytes).2 <;> rfl

/-- The patches of a sorting are those of its table. -/
theorem patches_eq : s.patches = s.table.patchKeys := rfl

/-- A list of patches is filed if it can be read. -/
theorem patchNamesOf_fst (bytes : ByteArray) :
    (patchNamesOf bytes).1 = Rule.patchNames.contentOf? bytes := by
  unfold patchNamesOf Rule.contentOf?
  cases Lump.readPatchNames bytes <;> rfl

/-- A list of textures is filed as such if it can be read. -/
theorem texturesOf_fst (name : String) (bytes : ByteArray) :
    (texturesOf name bytes).1 = Rule.texture.contentOf? bytes := by
  unfold texturesOf Rule.contentOf?
  cases Lump.readTextures bytes <;> rfl

/-- A lump outside every range adds what it is found to be. -/
theorem table_visitOutside (name : String) (following : List LumpEntry) :
    (s.visitOutside a index name following).1.table =
      (s.table.findOutside? a index name).elim s.table (s.table.file index name) := by
  unfold visitOutside LumpTable.findOutside?
  split
  · rfl
  · rw [patches_eq]
    cases Rule.of name s.table.patchKeys (a.folder? index) with
    | palette => exact table_fileLump a index s name _
    | colormap => exact table_fileLump a index s name _
    | endoom => exact table_fileLump a index s name _
    | patchNames =>
      simp only [table_fileLump, patchNamesOf_fst]
      rfl
    | unparsed =>
      cases a.lump index <;> rfl
    | inFolder kind => exact table_fileLump a index s name _
    | openRange kind terminator =>
      cases a.lump index <;> rfl
    | patch => exact table_fileLump a index s name _
    | mapBlock =>
      dsimp only
      split <;> rfl
    | texture =>
      simp only [table_fileLump, texturesOf_fst]
      rfl
    | other => exact table_fileLump a index s name _

/-- A lump in a range adds what it is found to be. -/
theorem table_visitInside (e : LumpEntry) (kind : RangeKind) :
    (s.visitInside a index e kind).table =
      (s.table.findInside? a index e kind).elim s.table (s.table.file index e.name) := by
  unfold visitInside LumpTable.findInside?
  split
  · rfl
  · rw [patches_eq]
    split
    · rfl
    · rw [table_fileLump]
      cases a.lump index <;> rfl

/-- Whatever stands open, a lump adds what it is found to be. -/
theorem table_visit (e : LumpEntry) (following : List LumpEntry) :
    (s.visit a index e following).1.table =
      (s.table.find? s.ranges a index e).elim s.table (s.table.file index e.name) := by
  unfold visit LumpTable.find?
  cases s.ranges with
  | nil => exact table_visitOutside a index s e.name following
  | cons range outer =>
    dsimp only
    by_cases hstop : range.terminator = e.name
    · simp [hstop]
    · cases hmarker : endMarker? e.name with
      | some terminator => simp [hstop]
      | none => simpa [hstop] using table_visitInside a index s e range.kind

end Sorting

end Interlude
