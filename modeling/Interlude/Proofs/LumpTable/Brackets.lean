import Mathlib
import Interlude.Proofs.LumpTable.Names
import Interlude.Proofs.LumpTable.OneByOne

/-!
# Well bracketed directories

In the directory of a WAD start markers and end markers are brackets. Where each start marker has its
end marker, to any depth, and nothing in between takes the end marker away, the ranges that are open at
a place are those of the brackets around it: what lies in no bracket is known by its name, and what
lies in one by the kind of the innermost one. At the end no range is open.
-/

namespace Interlude

namespace Sorting

variable {a : Archive} {index : Nat} {s : Sorting} {e : LumpEntry} {following : List LumpEntry}

/-! ### What one lump does -/

/-- The warnings that one lump may give. -/
def OfLump : SortWarning → Prop
  | .neverClosed _ | .noPalette => False
  | _ => True

/-- What a lump may do to the sorting: nothing, end the innermost range, open a range, file what it holds,
or file a map, of which some lumps may be missing. -/
inductive Effect (a : Archive) (index : Nat) (name : String) (s : Sorting) : Sorting → Prop where
  | passed : Effect a index name s s
  | ended {range : OpenRange} {outer : List OpenRange} (hranges : s.ranges = range :: outer)
      (hstop : range.terminator = name) : Effect a index name s { s with ranges := outer }
  | opened {terminator : String} (hmarker : endMarker? name = some terminator) :
      Effect a index name s { s with ranges := ⟨.ofMarker name, terminator⟩ :: s.ranges }
  | filed {content : ByteArray → Option Content × Option SortWarning}
      (hcontent : ∀ bytes, ∀ w ∈ (content bytes).2, OfLump w) :
      Effect a index name s (s.fileLump a index name content)
  | map : Effect a index name s (s.file index name .map)
  | shortMap (count : Nat) :
      Effect a index name s ((s.file index name .map).warn (.shortMap name count))

/-- Filing without a warning is one of these effects. -/
theorem effect_fileLump (a : Archive) (index : Nat) (s : Sorting) (name : String)
    (content : ByteArray → Content) :
    Effect a index name s (s.fileLump a index name fun bytes => (some (content bytes), none)) :=
  .filed fun _ _ hw => nomatch hw

/-- Outside every range a lump has one of these effects. -/
theorem effect_visitOutside (a : Archive) (index : Nat) (s : Sorting) (name : String)
    (following : List LumpEntry) :
    Effect a index name s (s.visitOutside a index name following).1 := by
  unfold visitOutside
  split
  · exact .passed
  · cases hrule : Rule.of name s.patches (a.folder? index) with
    | unparsed => exact .passed
    | openRange kind terminator =>
      obtain ⟨hmarker, rfl⟩ := Rule.eq_of_openRange hrule
      exact .opened hmarker
    | mapBlock =>
      dsimp only
      split
      · exact .shortMap _
      · exact .map
    | patchNames =>
      refine .filed fun bytes w hw => ?_
      split at hw
      · contradiction
      · exact Option.some.inj hw ▸ trivial
    | texture =>
      refine .filed fun bytes w hw => ?_
      split at hw
      · contradiction
      · exact Option.some.inj hw ▸ trivial
    | _ => exact effect_fileLump a index s name _

/-- Every lump has one of these effects. -/
theorem effect_visit (a : Archive) (index : Nat) (s : Sorting) (e : LumpEntry)
    (following : List LumpEntry) : Effect a index e.name s (s.visit a index e following).1 := by
  unfold visit
  split
  · exact effect_visitOutside a index s e.name following
  · rename_i range outer hranges
    split
    · rename_i hstop
      exact .ended hranges hstop
    · split
      · rename_i terminator hmarker
        exact .opened hmarker
      · unfold visitInside
        split
        · exact .passed
        · split
          · exact .passed
          · exact effect_fileLump a index s e.name _

/-! ### The ranges -/

/-- Filing what a lump holds opens and closes nothing. -/
theorem ranges_fileLump (a : Archive) (index : Nat) (s : Sorting) (name : String)
    (content : ByteArray → Option Content × Option SortWarning) :
    (s.fileLump a index name content).ranges = s.ranges := by
  unfold fileLump
  cases a.lump index with
  | error e => rfl
  | ok bytes =>
    dsimp only
    cases (content bytes).1 <;> cases (content bytes).2 <;> rfl

/-- A lump that is no marker of a range leaves the ranges as they are. -/
theorem ranges_visit_of_lump (hmarker : endMarker? e.name = none)
    (hstop : s.ranges.head?.map OpenRange.terminator ≠ some e.name) :
    (s.visit a index e following).1.ranges = s.ranges := by
  have heffect := effect_visit a index s e following
  generalize (s.visit a index e following).1 = s' at heffect ⊢
  cases heffect with
  | passed => rfl
  | ended hranges hended => simp [hranges, hended] at hstop
  | opened hopened => simp [hmarker] at hopened
  | filed _ => exact ranges_fileLump a index s e.name _
  | map => rfl
  | shortMap count => rfl

/-- A start marker opens its range in the ranges that are open. -/
theorem ranges_visit_of_start {terminator : String} (hmarker : endMarker? e.name = some terminator)
    (hnew : s.table.isFiled e.name = false) (hfolder : a.folder? index = none)
    (hstop : s.ranges.head?.map OpenRange.terminator ≠ some e.name) :
    (s.visit a index e following).1.ranges = ⟨.ofMarker e.name, terminator⟩ :: s.ranges := by
  unfold visit
  cases hranges : s.ranges with
  | nil =>
    obtain ⟨hgeometry, hend⟩ := not_passed_of_endMarker? hmarker
    have hrule : Rule.of e.name s.patches (a.folder? index) =
        .openRange (.ofMarker e.name) terminator :=
      Rule.of_endMarker? hmarker (by rw [hfolder]; rfl)
    simp [visitOutside, hnew, hgeometry, hend, hrule, hranges]
  | cons range outer =>
    have hother : range.terminator ≠ e.name := by simpa [hranges] using hstop
    simp [hother, hmarker]

/-- The marker that ends the innermost range closes it. -/
theorem ranges_visit_of_stop {range : OpenRange} {outer : List OpenRange}
    (hranges : s.ranges = range :: outer) (hstop : range.terminator = e.name) :
    (s.visit a index e following).1.ranges = outer := by
  simp [visit, hranges, hstop]

/-- In a WAD no start marker is filed. -/
theorem not_isFiled_of_endMarker? {w : Wad} {name terminator : String}
    (hmarker : endMarker? name = some terminator) (index : Nat) :
    (before (.wad w) index).table.isFiled name = false := by
  rw [Bool.eq_false_iff]
  intro hfiled
  rw [LumpTable.isFiled, filed_before, List.any_eq_true] at hfiled
  obtain ⟨f, hf, hname⟩ := hfiled
  obtain ⟨i, -, hplace⟩ := List.mem_filterMap.mp hf
  obtain ⟨e, -, hfound⟩ := Option.bind_eq_some_iff.mp hplace
  obtain ⟨c, hfound, rfl⟩ := Option.map_eq_some_iff.mp hfound
  obtain rfl : e.name = name := eq_of_beq hname
  unfold LumpTable.find? at hfound
  split at hfound
  · have hrule : Rule.of e.name (before (.wad w) i).table.patchKeys (Archive.folder? (.wad w) i) =
        .openRange (.ofMarker e.name) terminator := Rule.of_endMarker? hmarker rfl
    simp [LumpTable.findOutside?, hrule, Rule.content?, Rule.contentOf?] at hfound
  · simp [hmarker] at hfound

/-! ### Warnings about ranges -/

/-- A warning of a lump keeps all warnings such. -/
theorem ofLump_of_mem_warn {w : SortWarning} (hw : OfLump w) (hs : ∀ w' ∈ s.warnings, OfLump w') :
    ∀ w' ∈ (s.warn w).warnings, OfLump w' := by
  intro w' hw'
  rcases List.mem_append.mp hw' with hold | hlast
  · exact hs w' hold
  · exact List.mem_singleton.mp hlast ▸ hw

/-- Filing what a lump holds warns of the lump alone. -/
theorem ofLump_of_mem_fileLump {name : String}
    {content : ByteArray → Option Content × Option SortWarning}
    (hcontent : ∀ bytes, ∀ w ∈ (content bytes).2, OfLump w) (hs : ∀ w ∈ s.warnings, OfLump w) :
    ∀ w ∈ (s.fileLump a index name content).warnings, OfLump w := by
  unfold fileLump
  cases a.lump index with
  | error e => exact ofLump_of_mem_warn trivial hs
  | ok bytes =>
    have hown := hcontent bytes
    dsimp only
    cases hwarning : (content bytes).2 with
    | none => cases (content bytes).1 <;> exact hs
    | some w =>
      have hw : OfLump w := hown w hwarning
      cases (content bytes).1 <;> exact ofLump_of_mem_warn hw hs

/-- A lump warns of itself alone. -/
theorem ofLump_of_mem_visit (hs : ∀ w ∈ s.warnings, OfLump w) :
    ∀ w ∈ (s.visit a index e following).1.warnings, OfLump w := by
  have heffect := effect_visit a index s e following
  generalize (s.visit a index e following).1 = s' at heffect ⊢
  cases heffect with
  | passed => exact hs
  | ended _ _ => exact hs
  | opened _ => exact hs
  | filed hcontent => exact ofLump_of_mem_fileLump hcontent hs
  | map => exact hs
  | shortMap count =>
    have hmap : ∀ w ∈ (s.file index e.name .map).warnings, OfLump w := hs
    exact ofLump_of_mem_warn trivial hmap

/-- The lumps of an archive warn of themselves alone. -/
theorem ofLump_of_mem_warnings (a : Archive) : ∀ w ∈ (ofArchive a).warnings, OfLump w := by
  have hreached {index : Nat} {rest : List LumpEntry} {s : Sorting} (h : Reached a s index rest) :
      ∀ w ∈ s.warnings, OfLump w := by
    induction h with
    | start => exact fun w hw => nomatch hw
    | next _ ih => exact ofLump_of_mem_visit ih
  obtain ⟨last, hlast⟩ := (Reached.start (a := a)).reached_visitAll
  exact hreached hlast

/-- An archive is warned of as not closing a range exactly if one of the ranges that are open at its
end waits for that marker. -/
theorem neverClosed_mem_warnings_iff (a : Archive) (fallback : Option Palette) (terminator : String) :
    .neverClosed terminator ∈ (a.sorted fallback).warnings ↔
      ∃ range ∈ (ofArchive a).ranges, range.terminator = terminator := by
  change _ ∈ (ofArchive a).warnings ++ _ ++ _ ↔ _
  simp only [List.mem_append, List.mem_map, List.mem_reverse]
  constructor
  · rintro ((hlump | ⟨range, hrange, hwarning⟩) | hpalette)
    · exact (ofLump_of_mem_warnings a _ hlump).elim
    · exact ⟨range, hrange, SortWarning.neverClosed.inj hwarning⟩
    · split at hpalette
      · simp at hpalette
      · contradiction
  · rintro ⟨range, hrange, rfl⟩
    exact Or.inl (Or.inr ⟨range, hrange, rfl⟩)

end Sorting

/-! ### Brackets -/

/-- A directory, or a part of one, that is read as brackets and lumps. -/
inductive Brackets where
  | done
  | lump (e : LumpEntry) (rest : Brackets)
  | range (start : LumpEntry) (inner : Brackets) (stop : LumpEntry) (rest : Brackets)

namespace Brackets

/-- The records in their order. -/
def entries : Brackets → List LumpEntry
  | done => []
  | lump e rest => e :: rest.entries
  | range start inner stop rest => start :: (inner.entries ++ stop :: rest.entries)

/-- Whether the brackets are well formed where an end marker is awaited, if they lie in a range: a
range lies between a start marker and its own end marker, and a lump is neither a start marker nor the
end marker that is awaited. -/
def Proper (awaited : Option String) : Brackets → Prop
  | done => True
  | lump e rest => endMarker? e.name = none ∧ awaited ≠ some e.name ∧ rest.Proper awaited
  | range start inner stop rest =>
    endMarker? start.name = some stop.name ∧ inner.Proper (some stop.name) ∧ rest.Proper awaited

/-- The ranges around each of the records, the innermost one first. A start marker lies outside its
range and an end marker inside. -/
def around (outer : List OpenRange) : Brackets → List (List OpenRange)
  | done => []
  | lump _ rest => outer :: rest.around outer
  | range start inner stop rest =>
    let opened := ⟨.ofMarker start.name, stop.name⟩ :: outer
    outer :: (inner.around opened ++ opened :: rest.around outer)

end Brackets

namespace Sorting

/-- The ranges that are open before each of some lumps. -/
def rangesFrom (a : Archive) (index count : Nat) : List (List OpenRange) :=
  (List.range' index count).map fun i => (before a i).ranges

/-- The first lump and those after it. -/
theorem rangesFrom_succ (a : Archive) (index count : Nat) :
    rangesFrom a index (count + 1) = (before a index).ranges :: rangesFrom a (index + 1) count := by
  rw [rangesFrom, List.range'_succ, List.map_cons]
  rfl

/-- Some lumps and those after them. -/
theorem rangesFrom_add (a : Archive) (index m n : Nat) :
    rangesFrom a index (m + n) = rangesFrom a index m ++ rangesFrom a (index + m) n := by
  rw [rangesFrom, rangesFrom, rangesFrom, ← List.map_append, List.range'_append_1]

/-- Ranges that wait for end markers do not wait for a start marker. -/
theorem not_awaited_of_endMarker? {outer : List OpenRange} {name terminator : String}
    (houter : ∀ range ∈ outer, endMarker? range.terminator = none)
    (hmarker : endMarker? name = some terminator) :
    outer.head?.map OpenRange.terminator ≠ some name := by
  intro hawaited
  obtain ⟨range, hrange, hname⟩ := Option.map_eq_some_iff.mp hawaited
  have hnone := houter range (List.mem_of_head? hrange)
  rw [hname, hmarker] at hnone
  contradiction

/-- From a place where some ranges are open, well formed brackets open and close their own ranges in
these. -/
theorem ranges_of_proper {w : Wad} {d : Brackets} {outer : List OpenRange} {index : Nat}
    {after : List LumpEntry} (hd : d.Proper (outer.head?.map OpenRange.terminator))
    (houter : ∀ range ∈ outer, endMarker? range.terminator = none)
    (hentries : w.entries.drop index = d.entries ++ after)
    (hranges : (before (.wad w) index).ranges = outer) :
    rangesFrom (.wad w) index d.entries.length = d.around outer ∧
      (before (.wad w) (index + d.entries.length)).ranges = outer := by
  -- That the outer ranges are open again after each part is what the next part starts from.
  induction d generalizing outer index after with
  | done => exact ⟨rfl, hranges⟩
  | lump e rest ih =>
    obtain ⟨hmarker, hstop, hrest⟩ := hd
    obtain ⟨hdrop, hnext⟩ := before_succ_of_drop (a := .wad w) hentries
    have hkept : (before (.wad w) (index + 1)).ranges = outer := by
      rw [hnext, ranges_visit_of_lump hmarker (by rwa [hranges]), hranges]
    obtain ⟨haround, hend⟩ := ih hrest houter hdrop hkept
    constructor
    · rw [Brackets.entries, List.length_cons, rangesFrom_succ, hranges, haround, Brackets.around]
    · rw [Brackets.entries, List.length_cons, ← hend]
      congr 2
      omega
  | range start inner stop rest ihInner ihRest =>
    obtain ⟨hmarker, hinner, hrest⟩ := hd
    rw [Brackets.entries, List.cons_append, List.append_assoc, List.cons_append] at hentries
    obtain ⟨hdrop, hnext⟩ := before_succ_of_drop (a := .wad w) hentries
    have hopened : (before (.wad w) (index + 1)).ranges =
        ⟨.ofMarker start.name, stop.name⟩ :: outer := by
      -- No range waits for the start marker, so that it is not taken for an end.
      have hother := not_awaited_of_endMarker? houter hmarker
      rw [hnext, ranges_visit_of_start hmarker (not_isFiled_of_endMarker? hmarker index) rfl
        (by rwa [hranges]), hranges]
    have hterminators : ∀ range ∈ OpenRange.mk (.ofMarker start.name) stop.name :: outer,
        endMarker? range.terminator = none :=
      List.forall_mem_cons.mpr ⟨endMarker?_terminator hmarker, houter⟩
    obtain ⟨haroundInner, hinnerEnd⟩ := ihInner (by exact hinner) hterminators hdrop hopened
    have hdropStop : (Archive.wad w).entries.drop (index + 1 + inner.entries.length) =
        stop :: (rest.entries ++ after) := by
      rw [← List.drop_drop, hdrop, List.drop_left]
    obtain ⟨hdropRest, hnextRest⟩ := before_succ_of_drop hdropStop
    have hclosed : (before (.wad w) (index + 1 + inner.entries.length + 1)).ranges = outer := by
      rw [hnextRest, ranges_visit_of_stop hinnerEnd rfl]
    obtain ⟨haroundRest, hend⟩ := ihRest hrest houter hdropRest hclosed
    constructor
    · rw [Brackets.entries, List.length_cons, List.length_append, List.length_cons, rangesFrom_succ,
        hranges, rangesFrom_add, haroundInner, rangesFrom_succ, hinnerEnd, haroundRest,
        Brackets.around]
    · rw [Brackets.entries, List.length_cons, List.length_append, List.length_cons, ← hend]
      congr 2
      omega

section

variable {w : Wad} {d : Brackets}

/-- The ranges around the records of a well bracketed WAD are open before them, and none at the end. -/
theorem rangesFrom_of_proper (hentries : w.entries = d.entries) (hproper : d.Proper none) :
    rangesFrom (.wad w) 0 d.entries.length = d.around [] ∧ (ofArchive (.wad w)).ranges = [] := by
  have hall : w.entries.drop 0 = d.entries ++ [] := by rw [List.drop_zero, List.append_nil, hentries]
  have hnone : ∀ range ∈ ([] : List OpenRange), endMarker? range.terminator = none :=
    List.forall_mem_nil _
  obtain ⟨haround, hend⟩ := ranges_of_proper (by exact hproper) hnone hall rfl
  refine ⟨haround, ?_⟩
  rw [ofArchive_eq_before, ← hend, Nat.zero_add, ← hentries]
  rfl

/-- Before a record of a well bracketed WAD the ranges around it are open. -/
theorem around_eq_some_ranges (hentries : w.entries = d.entries) (hproper : d.Proper none)
    {index : Nat} {e : LumpEntry} (he : w.entries[index]? = some e) :
    (d.around [])[index]? = some (before (.wad w) index).ranges := by
  have hindex : index < d.entries.length := hentries ▸ (List.getElem?_eq_some_iff.mp he).1
  rw [← (rangesFrom_of_proper hentries hproper).1, rangesFrom, List.getElem?_map,
    List.getElem?_range' hindex, Option.map_some, Nat.zero_add, Nat.one_mul]

end

end Sorting

open Sorting in
/-- The sorting of a well bracketed WAD follows the brackets. At its end no range is open, and it does not
warn of any. Whenever it comes to a lump, the ranges around the lump are open. A lump in no bracket holds
what the rule for its name makes of it, and a lump in a bracket, which is neither a start marker nor the
end marker of that bracket, what the kind of the innermost one does; otherwise it is passed over. -/
theorem Archive.sorted_follows_brackets (w : Wad) (fallback : Option Palette) (d : Brackets)
    (hentries : w.entries = d.entries) (hproper : d.Proper none) :
    let a := Archive.wad w
    let t := (a.sorted fallback).table
    (ofArchive a).ranges = [] ∧
    (∀ terminator, .neverClosed terminator ∉ (a.sorted fallback).warnings) ∧
    (∀ s index e following, Reached a s index (e :: following) →
      (d.around [])[index]? = some s.ranges) ∧
    (∀ index e c, w.entries[index]? = some e → (d.around [])[index]? = some [] →
      (t.contentAt? index = some c ↔
        (t.upTo index).isFiled e.name = false ∧ isGeometry e.name = false ∧
        isEndMarker e.name = false ∧
        (Rule.of e.name (t.upTo index).patchKeys none).content? (w.lump index) = some c)) ∧
    (∀ index e c range outer, w.entries[index]? = some e →
      (d.around [])[index]? = some (range :: outer) →
      (t.contentAt? index = some c ↔
        range.terminator ≠ e.name ∧ endMarker? e.name = none ∧
        e.size ≠ 0 ∧ (t.upTo index).isFiled e.name = false ∧
        (range.kind = .patch → (t.upTo index).patchKeys.contains (Text.upper e.name) = true) ∧
        ∃ bytes, w.lump index = .ok bytes ∧ c = .ofRange range.kind bytes)) := by
  intro a t
  have hopen {index : Nat} {e : LumpEntry} (he : w.entries[index]? = some e) :
      (d.around [])[index]? = some (before a index).ranges :=
    around_eq_some_ranges hentries hproper he
  have hlast : (ofArchive a).ranges = [] := (rangesFrom_of_proper hentries hproper).2
  refine ⟨hlast, fun terminator hwarned => ?_, fun s index e following hreached => ?_,
    fun index e c he hnone => ?_, fun index e c range outer he hsome => ?_⟩
  · obtain ⟨range, hrange, -⟩ := (neverClosed_mem_warnings_iff a fallback terminator).mp hwarned
    rw [hlast] at hrange
    exact List.not_mem_nil hrange
  · rw [hreached.eq_before]
    exact hopen hreached.getElem?
  · have hranges : (before a index).ranges = [] := Option.some.inj ((hopen he).symm.trans hnone)
    rw [show t.contentAt? index = _ from contentAt?_ofArchive he, hranges]
    exact LumpTable.findOutside?_eq_some_iff
  · have hranges : (before a index).ranges = range :: outer :=
      Option.some.inj ((hopen he).symm.trans hsome)
    rw [show t.contentAt? index = _ from contentAt?_ofArchive he, hranges,
      LumpTable.find?_cons_eq_some_iff, LumpTable.findInside?_eq_some_iff]
    exact Iff.rfl

open Sorting in
/-- Flats in a range in a range, both of which the same marker ends, and a text after them. -/
theorem Archive.sorted_follows_brackets_shared_end :
    let w : Wad := ⟨⟨#[1, 2, 3]⟩, [⟨"F_START", 0, 0⟩, ⟨"FF_START", 0, 0⟩, ⟨"GRASS", 0, 1⟩,
      ⟨"F_END", 0, 0⟩, ⟨"SLIME", 1, 1⟩, ⟨"F_END", 0, 0⟩, ⟨"INTERA", 2, 1⟩]⟩
    let d := Brackets.range ⟨"F_START", 0, 0⟩
      (.range ⟨"FF_START", 0, 0⟩ (.lump ⟨"GRASS", 0, 1⟩ .done) ⟨"F_END", 0, 0⟩
        (.lump ⟨"SLIME", 1, 1⟩ .done))
      ⟨"F_END", 0, 0⟩ (.lump ⟨"INTERA", 2, 1⟩ .done)
    let t := ((Archive.wad w).sorted none).table
    w.entries = d.entries ∧ d.Proper none ∧ (ofArchive (.wad w)).ranges = [] ∧
      t.contentAt? 2 = some (.ofRange .flat ⟨#[1]⟩) ∧
      t.contentAt? 4 = some (.ofRange .flat ⟨#[2]⟩) ∧
      t.contentAt? 6 = some (.ofBytes ⟨#[3]⟩) := by
  intro w d t
  have hentries : w.entries = d.entries := rfl
  have hproper : d.Proper none := by
    simp only [d, Brackets.Proper]
    decide
  obtain ⟨hlast, -, -, houtside, hinside⟩ :=
    Archive.sorted_follows_brackets w none d hentries hproper
  have hupTo (index : Nat) (h : index ≤ w.entries.length) : t.upTo index = (before (.wad w) index).table :=
    (table_before h).symm
  refine ⟨hentries, hproper, hlast, (hinside 2 _ _ _ _ rfl rfl).mpr ?_,
    (hinside 4 _ _ _ _ rfl rfl).mpr ?_, (houtside 6 _ _ rfl rfl).mpr ?_⟩
  · rw [hupTo 2 (by decide)]
    exact ⟨by decide, by decide, by decide, by decide +kernel, nofun, _, rfl, rfl⟩
  · rw [hupTo 4 (by decide)]
    exact ⟨by decide, by decide, by decide, by decide +kernel, nofun, _, rfl, rfl⟩
  · rw [hupTo 6 (by decide)]
    have hrule : Rule.of "INTERA" (before (.wad w) 6).table.patchKeys none = .other := by
      decide +kernel
    refine ⟨by decide +kernel, by decide, by decide, ?_⟩
    rw [hrule]
    rfl

end Interlude
