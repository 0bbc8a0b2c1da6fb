import Mathlib
import Interlude.Proofs.LumpTable.OneByOne

/-!
# Lumps of a map

Behind the marker of a map the sorting goes on after the lumps of the map that follow it in their order.
That saves work and nothing else: a pass that takes every lump of the directory by itself ends in the
same state. What the sorting passes over lies in the directory, and nothing of it would have been filed,
would have opened or closed a range, or would have been read.
-/

namespace Interlude

namespace Sorting

variable {a : Archive} {index : Nat} {s : Sorting} {e : LumpEntry} {following : List LumpEntry}

/-- Takes every lump from a place in the directory on by itself, also those that belong to a map. -/
def visitEach (a : Archive) (s : Sorting) (index : Nat) : List LumpEntry → Sorting
  | [] => s
  | e :: following => visitEach a (s.visit a index e following).1 (index + 1) following

/-- From the state before a place on, taking every lump by itself leads to the state after the last
one. -/
theorem visitEach_before {rest : List LumpEntry} (hrest : a.entries.drop index = rest) :
    visitEach a (before a index) index rest = before a a.entries.length := by
  induction rest generalizing index with
  | nil => exact before_of_length_le (List.drop_eq_nil_iff.mp hrest)
  | cons e following ih =>
    obtain ⟨hfollowing, hnext⟩ := before_succ_of_drop hrest
    rw [visitEach, ← hnext]
    exact ih hfollowing

/-- The sorting ends as if it had taken every lump by itself. -/
theorem ofArchive_eq_visitEach (a : Archive) : ofArchive a = visitEach a start 0 a.entries :=
  (ofArchive_eq_before a).trans (visitEach_before List.drop_zero).symm

/-- What the sorting passes over after a lump is in the directory and is a lump of a map, and no range
is open. -/
theorem exists_of_lt_passed (h : a.entries.drop (index + 1) = following) {k : Nat}
    (hk : k < (s.visit a index e following).2) :
    (∃ lump, a.entries[index + 1 + k]? = some lump ∧ isGeometry lump.name = true) ∧
      (s.visit a index e following).1.ranges = [] := by
  rcases visit_passes a index s e following with hnone | ⟨hrun, hranges⟩
  · omega
  · obtain ⟨lump, hlump, hgeometry⟩ := isGeometry_of_lt_geometryRun (hrun ▸ hk)
    rw [← h, List.getElem?_drop] at hlump
    exact ⟨⟨lump, hlump, hgeometry⟩, hranges⟩

/-- The sorting goes on in the directory or right behind it. -/
theorem Reached.next_le (h : Reached a s index (e :: following)) :
    index + 1 + (s.visit a index e following).2 ≤ a.entries.length := by
  have hindex := (List.getElem?_eq_some_iff.mp h.getElem?).1
  cases hcount : (s.visit a index e following).2 with
  | zero => omega
  | succ count =>
    have hlast : count < (s.visit a index e following).2 := by omega
    obtain ⟨⟨lump, hlump, -⟩, -⟩ := exists_of_lt_passed h.following_eq.symm hlast
    have hplace := (List.getElem?_eq_some_iff.mp hlump).1
    omega

/-- A lump of a map outside every range has no content. -/
theorem contentAt?_of_isGeometry (he : a.entries[index]? = some e)
    (hranges : (before a index).ranges = []) (hname : isGeometry e.name = true) :
    (ofArchive a).table.contentAt? index = none := by
  rw [contentAt?_ofArchive he, hranges]
  simp [LumpTable.find?, LumpTable.findOutside?, hname]

end Sorting

open Sorting in
/-- The sorting of an archive comes to the same end as a pass that takes every lump by itself: the same
table, the same open ranges and the same warnings. Wherever it goes on after a lump, it has not left the
directory, and each lump that it passes over would have been left alone. Whatever archive it belonged
to, so that not even its bytes count, the state would stay as it is; and in the table it has no
category. -/
theorem Archive.sorted_one_by_one (a : Archive) (fallback : Option Palette) :
    let t := (a.sorted fallback).table
    ofArchive a = visitEach a .start 0 a.entries ∧
    t = (visitEach a .start 0 a.entries).table ∧
    ∀ s index e following, Reached a s index (e :: following) →
      let s' := (s.visit a index e following).1
      let count := (s.visit a index e following).2
      index + 1 + count ≤ a.entries.length ∧
      ∀ k < count, ∃ lump, a.entries[index + 1 + k]? = some lump ∧
        (∀ (b : Archive) (place : Nat) (after : List LumpEntry),
          s'.visit b place lump after = (s', 0)) ∧
        t.categoryAt? (index + 1 + k) = none := by
  intro t
  have hend := ofArchive_eq_visitEach a
  refine ⟨hend, congrArg table hend, fun s index e following hreached => ?_⟩
  refine ⟨hreached.next_le, fun k hk => ?_⟩
  obtain ⟨⟨lump, hlump, hgeometry⟩, hranges⟩ := exists_of_lt_passed hreached.following_eq.symm hk
  refine ⟨lump, hlump, fun b place after => visit_of_isGeometry hranges hgeometry, ?_⟩
  -- Before the lump the state is still the one after the marker, for those in between left it alone.
  have hbefore : (before a (index + 1 + k)).ranges = [] := by
    obtain rfl := hreached.eq_before
    obtain rfl := hreached.following_eq
    rw [before_add_of_le hreached.getElem? hk.le, before_succ hreached.getElem?]
    exact hranges
  have hnone : t.contentAt? (index + 1 + k) = none := contentAt?_of_isGeometry hlump hbefore hgeometry
  rw [LumpTable.categoryAt?_eq_map, hnone, Option.map_none]

open Sorting in
/-- A map of which only two lumps follow its marker: these two are passed over, and a text of another
name is not. -/
theorem Archive.sorted_one_by_one_short_map :
    let lumps : List LumpEntry :=
      [⟨"THINGS", 0, 1⟩, ⟨"LINEDEFS", 1, 1⟩, ⟨"BEHAVIOR", 2, 1⟩, ⟨"NODES", 0, 1⟩]
    let a := Archive.wad ⟨⟨#[1, 2, 3]⟩, ⟨"MAP01", 0, 0⟩ :: lumps⟩
    let t := (a.sorted none).table
    Reached a .start 0 (⟨"MAP01", 0, 0⟩ :: lumps) ∧
      (Sorting.start.visit a 0 ⟨"MAP01", 0, 0⟩ lumps).2 = 2 ∧ 3 ≤ a.entries.length ∧
      t.categoryAt? 1 = none ∧ t.categoryAt? 2 = none ∧
      t = (visitEach a .start 0 a.entries).table := by
  intro lumps a t
  have hreached : Reached a .start 0 (⟨"MAP01", 0, 0⟩ :: lumps) := Reached.start
  have hcount : (Sorting.start.visit a 0 ⟨"MAP01", 0, 0⟩ lumps).2 = 2 := by decide +kernel
  obtain ⟨-, htable, hpassed⟩ := Archive.sorted_one_by_one a none
  obtain ⟨hle, hlumps⟩ := hpassed _ _ _ _ hreached
  obtain ⟨_, -, -, hfirst⟩ := hlumps 0 (by rw [hcount]; decide)
  obtain ⟨_, -, -, hsecond⟩ := hlumps 1 (by rw [hcount]; decide)
  exact ⟨hreached, hcount, by rwa [hcount] at hle, hfirst, hsecond, htable⟩

end Interlude
