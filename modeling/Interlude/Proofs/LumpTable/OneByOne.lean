import Mathlib
import Interlude.Proofs.LumpTable.Findings

/-!
# Taking the lumps one by one

After the marker of a map the sorting passes over the lumps of the map at once. Taken one by one these
lumps would leave the sorting as it is, so that at every place it is in the state that follows from
the lumps before the place, each taken by itself. What the table holds at a place is what the lump
there is found to be in that state.
-/

namespace Interlude

namespace LumpTable

/-- What the lumps before a place have filled. -/
def upTo (t : LumpTable) (index : Nat) : LumpTable where
  filed := t.filed.filter fun f => f.index < index
  nodup := t.nodup.sublist (List.filter_sublist.map Filed.name)

/-- A table is what is filed in it. -/
theorem eq_of_filed_eq {t t' : LumpTable} (h : t.filed = t'.filed) : t = t' := by
  cases t
  cases t'
  subst h
  rfl

/-- What is found to be something has no content yet. -/
theorem not_isFiled_of_find? {t : LumpTable} {ranges : List OpenRange} {a : Archive} {index : Nat}
    {e : LumpEntry} {c : Content} (h : t.find? ranges a index e = some c) :
    t.isFiled e.name = false := by
  rw [Bool.eq_false_iff]
  intro hfiled
  cases ranges with
  | nil => simp [find?, findOutside?, hfiled] at h
  | cons range outer => simp [find?, findInside?, hfiled] at h

end LumpTable

namespace Sorting

variable {a : Archive} {index : Nat} {s : Sorting} {e : LumpEntry} {following : List LumpEntry}

/-! ### The lumps of a map -/

/-- What follows a marker at once are lumps of a map. -/
theorem isGeometry_of_lt_geometryRun {k : Nat} (h : k < geometryRun following) :
    ∃ e, following[k]? = some e ∧ isGeometry e.name = true := by
  have hlength : geometryRun following =
      ((following.zip geometryNames).takeWhile fun pair => pair.1.name == pair.2).length := rfl
  generalize hrun : ((following.zip geometryNames).takeWhile fun pair => pair.1.name == pair.2) = run
    at hlength
  rw [hlength] at h
  obtain ⟨rest, hrest⟩ : run <+: following.zip geometryNames := hrun ▸ List.takeWhile_prefix _
  have hpair : (following.zip geometryNames)[k]? = some run[k] := by
    rw [← hrest, List.getElem?_append_left h, List.getElem?_eq_getElem h]
  obtain ⟨hentry, hname⟩ := List.getElem?_zip_eq_some.mp hpair
  refine ⟨run[k].1, hentry, ?_⟩
  have hmem : run[k] ∈ (following.zip geometryNames).takeWhile fun pair => pair.1.name == pair.2 := by
    rw [hrun]
    exact List.getElem_mem h
  have hfits : run[k].1.name = run[k].2 := by
    have htest := List.mem_takeWhile_imp hmem
    exact eq_of_beq htest
  rw [isGeometry, hfits]
  exact List.contains_iff_mem.mpr (List.mem_of_getElem? hname)

/-- Outside every range a lump of a map leaves the sorting as it is. -/
theorem visit_of_isGeometry (hranges : s.ranges = []) (hname : isGeometry e.name = true) :
    s.visit a index e following = (s, 0) := by
  simp [visit, visitOutside, hranges, hname]

/-- Lumps are passed over only after the marker of a map, outside every range. -/
theorem visit_passes (a : Archive) (index : Nat) (s : Sorting) (e : LumpEntry)
    (following : List LumpEntry) :
    (s.visit a index e following).2 = 0 ∨
      (s.visit a index e following).2 = geometryRun following ∧
        (s.visit a index e following).1.ranges = [] := by
  unfold visit
  cases hranges : s.ranges with
  | cons range outer =>
    left
    dsimp only
    split
    · rfl
    · split <;> rfl
  | nil =>
    dsimp only
    unfold visitOutside
    split
    · exact Or.inl rfl
    · cases Rule.of e.name s.patches (a.folder? index) with
      | mapBlock =>
        right
        dsimp only
        refine ⟨rfl, ?_⟩
        split <;> exact hranges
      | _ => exact Or.inl rfl

/-! ### One by one -/

/-- The state before the lump at a place, where each of the lumps before it is taken by itself. -/
def before (a : Archive) : Nat → Sorting
  | 0 => start
  | index + 1 =>
    match a.entries[index]? with
    | none => before a index
    | some e => ((before a index).visit a index e (a.entries.drop (index + 1))).1

/-- The next state follows from the lump at the place. -/
theorem before_succ (he : a.entries[index]? = some e) :
    before a (index + 1) = ((before a index).visit a index e (a.entries.drop (index + 1))).1 := by
  rw [before, he]

/-- Where the lumps from a place on are known, the first one leads to the next state. -/
theorem before_succ_of_drop (h : a.entries.drop index = e :: following) :
    a.entries.drop (index + 1) = following ∧
      before a (index + 1) = ((before a index).visit a index e following).1 := by
  have hrest : a.entries.drop (index + 1) = following := by
    rw [← List.tail_drop, h, List.tail_cons]
  have he : a.entries[index]? = some e := by
    rw [← List.head?_drop, h, List.head?_cons]
  rw [before_succ he, hrest]
  exact ⟨rfl, rfl⟩

/-- Taking the lumps that are passed over changes nothing. -/
theorem before_add_of_le (he : a.entries[index]? = some e) {k : Nat}
    (hk : k ≤ ((before a index).visit a index e (a.entries.drop (index + 1))).2) :
    before a (index + 1 + k) = before a (index + 1) := by
  induction k with
  | zero => rfl
  | succ k ih =>
    have hbefore := ih (by omega)
    rcases visit_passes a index (before a index) e (a.entries.drop (index + 1)) with hnone | ⟨hrun, hranges⟩
    · omega
    · obtain ⟨e', he', hgeometry⟩ := isGeometry_of_lt_geometryRun
        (show k < geometryRun (a.entries.drop (index + 1)) by omega)
      rw [List.getElem?_drop] at he'
      rw [← before_succ he, ← hbefore] at hranges
      rw [← hbefore, ← Nat.add_assoc, before_succ he', visit_of_isGeometry hranges hgeometry]

/-- What follows the lump that comes next is the rest of the directory. -/
theorem Reached.following_eq (h : Reached a s index (e :: following)) :
    following = a.entries.drop (index + 1) := by
  have hrest := congrArg List.tail h.rest_eq
  rwa [List.tail_drop] at hrest

/-- The sorting reaches the states that follow from the lumps one by one. -/
theorem Reached.eq_before {rest : List LumpEntry} (h : Reached a s index rest) :
    s = before a index := by
  induction h with
  | start => rfl
  | @next s index e following hreached ih =>
    have he := hreached.getElem?
    rw [ih, hreached.following_eq, before_add_of_le he le_rfl, before_succ he]

/-- Every place is one that the sorting comes to or one that it passes over from there. -/
theorem exists_reached (h : index < a.entries.length) : ∃ s start e following,
    Reached a s start (e :: following) ∧ start ≤ index ∧
      index ≤ start + (s.visit a start e following).2 := by
  have hnext {s : Sorting} {place : Nat} {rest : List LumpEntry} (hreached : Reached a s place rest)
      (hplace : place < a.entries.length) : ∃ e following, rest = e :: following := by
    have hrest : rest ≠ [] := by
      rw [hreached.rest_eq]
      exact fun hnil => absurd (List.drop_eq_nil_iff.mp hnil) (by omega)
    exact List.exists_cons_of_ne_nil hrest
  induction index with
  | zero =>
    obtain ⟨e, following, hentries⟩ := hnext Reached.start h
    exact ⟨.start, 0, e, following, hentries ▸ Reached.start, le_rfl, Nat.zero_le _⟩
  | succ index ih =>
    obtain ⟨s, start, e, following, hreached, hfrom, hto⟩ := ih (by omega)
    by_cases hpassed : index + 1 ≤ start + (s.visit a start e following).2
    · exact ⟨s, start, e, following, hreached, by omega, hpassed⟩
    · have hplace : start + 1 + (s.visit a start e following).2 = index + 1 := by omega
      have hstep := hreached.next
      rw [hplace] at hstep
      obtain ⟨e', following', hrest⟩ := hnext hstep h
      exact ⟨_, index + 1, e', following', hrest ▸ hstep, le_rfl, Nat.le_add_right _ _⟩

/-- What the sorting passes over is a lump of a map outside every range. -/
theorem reached_or_passed (he : a.entries[index]? = some e) :
    (∃ following, Reached a (before a index) index (e :: following)) ∨
      isGeometry e.name = true ∧ (before a index).ranges = [] := by
  obtain ⟨s, start, e', following, hreached, hfrom, hto⟩ :=
    exists_reached (List.getElem?_eq_some_iff.mp he).1
  obtain rfl : s = before a start := hreached.eq_before
  have he' := hreached.getElem?
  rcases Nat.eq_or_lt_of_le hfrom with rfl | hpassed
  · obtain rfl : e' = e := Option.some.inj (he'.symm.trans he)
    exact Or.inl ⟨following, hreached⟩
  · right
    obtain rfl := hreached.following_eq
    obtain ⟨k, rfl⟩ := Nat.exists_eq_add_of_lt hpassed
    rcases visit_passes a start (before a start) e' (a.entries.drop (start + 1)) with
      hnone | ⟨hrun, hranges⟩
    · omega
    · obtain ⟨lump, hlump, hgeometry⟩ := isGeometry_of_lt_geometryRun
        (show k < geometryRun (a.entries.drop (start + 1)) by omega)
      rw [List.getElem?_drop, show start + 1 + k = start + k + 1 by omega, he] at hlump
      rw [← before_succ he'] at hranges
      refine ⟨Option.some.inj hlump ▸ hgeometry, ?_⟩
      rw [show start + k + 1 = start + 1 + k by omega, before_add_of_le he' (by omega), hranges]

/-- The sorting comes to every lump that is none of a map. -/
theorem reached_of_not_isGeometry (he : a.entries[index]? = some e) (hname : isGeometry e.name = false) :
    Reached a (before a index) index (e :: a.entries.drop (index + 1)) := by
  obtain ⟨following, hreached⟩ | ⟨hgeometry, -⟩ := reached_or_passed he
  · obtain rfl := hreached.following_eq
    exact hreached
  · rw [hname] at hgeometry
    contradiction

/-- Past the end of the directory nothing changes. -/
theorem before_of_length_le (h : a.entries.length ≤ index) :
    before a index = before a a.entries.length := by
  induction index, h using Nat.le_induction with
  | base => rfl
  | succ index h ih => rw [before, List.getElem?_eq_none h, ih]

/-- The sorting of an archive ends in the state that follows from all its lumps one by one. -/
theorem ofArchive_eq_before (a : Archive) : ofArchive a = before a a.entries.length := by
  obtain ⟨last, hlast⟩ := (Reached.start (a := a)).reached_visitAll
  have hend : a.entries.length ≤ last := List.drop_eq_nil_iff.mp hlast.rest_eq.symm
  exact hlast.eq_before.trans (before_of_length_le hend)

/-- What is found in an archive is what is found taking its lumps one by one. -/
theorem table_sorted (a : Archive) (fallback : Option Palette) :
    (a.sorted fallback).table = (before a a.entries.length).table :=
  congrArg table (ofArchive_eq_before a)

/-! ### What is filed at a place -/

/-- What is filed for the lump at a place. -/
def filedAt? (a : Archive) (index : Nat) : Option Filed :=
  (a.entries[index]?).bind fun e =>
    ((before a index).table.find? (before a index).ranges a index e).map (Filed.mk index e.name)

/-- What is filed for a lump is what it is found to be. -/
theorem filedAt?_eq (he : a.entries[index]? = some e) :
    filedAt? a index =
      ((before a index).table.find? (before a index).ranges a index e).map (Filed.mk index e.name) := by
  rw [filedAt?, he, Option.bind_some]

/-- What is filed for a lump has its place. -/
theorem index_of_filedAt? {f : Filed} (h : filedAt? a index = some f) : f.index = index := by
  obtain ⟨e, -, h⟩ := Option.bind_eq_some_iff.mp h
  obtain ⟨c, -, rfl⟩ := Option.map_eq_some_iff.mp h
  rfl

/-- The table holds what is filed for the lumps in their order. -/
theorem filed_before (a : Archive) (index : Nat) :
    (before a index).table.filed = (List.range index).filterMap (filedAt? a) := by
  induction index with
  | zero => rfl
  | succ index ih =>
    rw [List.range_succ, List.filterMap_append, ← ih]
    cases he : a.entries[index]? with
    | none => simp [before, filedAt?, he]
    | some e =>
      rw [before_succ he, table_visit]
      cases hfound : (before a index).table.find? (before a index).ranges a index e with
      | none => simp [filedAt?_eq he, hfound]
      | some c =>
        have hnew := LumpTable.not_isFiled_of_find? hfound
        simpa [filedAt?_eq he, hfound] using LumpTable.filed_file_of_not_isFiled index c hnew

/-- Before a place the table is the part of the final one that the lumps before the place have
filled. -/
theorem table_before (h : index ≤ a.entries.length) :
    (before a index).table = (ofArchive a).table.upTo index := by
  refine LumpTable.eq_of_filed_eq ?_
  change _ = (ofArchive a).table.filed.filter _
  obtain ⟨more, hmore⟩ := Nat.exists_eq_add_of_le h
  rw [ofArchive_eq_before, filed_before, filed_before, hmore, List.range_add, List.filterMap_append,
    List.filter_append]
  have hfirst : ∀ f ∈ (List.range index).filterMap (filedAt? a), decide (f.index < index) = true := by
    intro f hf
    obtain ⟨i, hi, hfiled⟩ := List.mem_filterMap.mp hf
    rw [index_of_filedAt? hfiled]
    exact decide_eq_true (List.mem_range.mp hi)
  have hlater : ∀ f ∈ ((List.range more).map (index + ·)).filterMap (filedAt? a),
      ¬ decide (f.index < index) = true := by
    intro f hf
    obtain ⟨i, hi, hfiled⟩ := List.mem_filterMap.mp hf
    obtain ⟨k, -, rfl⟩ := List.mem_map.mp hi
    rw [index_of_filedAt? hfiled]
    simp
  rw [List.filter_eq_self.mpr hfirst, List.filter_eq_nil_iff.mpr hlater, List.append_nil]

/-- What the table holds at a place is what the lump there is found to be, given the ranges that are
open and what the lumps before it have filled. -/
theorem contentAt?_ofArchive (he : a.entries[index]? = some e) :
    (ofArchive a).table.contentAt? index =
      ((ofArchive a).table.upTo index).find? (before a index).ranges a index e := by
  have hindex : index < a.entries.length := (List.getElem?_eq_some_iff.mp he).1
  obtain ⟨last, hlast⟩ := (Reached.start (a := a)).reached_visitAll
  have horder : (ofArchive a).table.InOrder := hlast.faithful.inOrder
  rw [← table_before hindex.le]
  ext c
  rw [horder.contentAt?_eq_some_iff, ofArchive_eq_before, filed_before]
  constructor
  · rintro ⟨f, hf, hplace, rfl⟩
    obtain ⟨i, -, hfiled⟩ := List.mem_filterMap.mp hf
    obtain rfl : i = index := (index_of_filedAt? hfiled).symm.trans hplace
    rw [filedAt?_eq he] at hfiled
    obtain ⟨c, hfound, rfl⟩ := Option.map_eq_some_iff.mp hfiled
    exact hfound
  · intro hfound
    refine ⟨⟨index, e.name, c⟩, List.mem_filterMap.mpr ⟨index, List.mem_range.mpr hindex, ?_⟩, rfl, rfl⟩
    rw [filedAt?_eq he, hfound, Option.map_some]

end Sorting

end Interlude
