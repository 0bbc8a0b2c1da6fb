import Mathlib
import Interlude.Proofs.MapTable.Declarations

/-!
# The two orders of a table

A table in the order of the text and one in the order of the tokens hold the same maps. The stable
sort of the tokens in upper case tells which definition stands in which place of the second table,
and a map differs there in nothing but its number and its next map, which depends on what follows.
Definitions of one map keep their order, so a token finds the last of them in both tables.
-/

namespace Interlude

open Text (sameName upper)

/-! ### Stable sorting -/

section Sorting

variable {α κ : Type} [LinearOrder κ] {n : ℕ}

/-- The order of places by what stands in them. -/
private def placeLE (f : Fin n → κ) (i j : Fin n) : Bool :=
  decide (f i ≤ f j)

private theorem placeLE_trans (f : Fin n → κ) (i j k : Fin n) (hij : placeLE f i j = true)
    (hjk : placeLE f j k = true) : placeLE f i k = true :=
  decide_eq_true ((of_decide_eq_true hij).trans (of_decide_eq_true hjk))

private theorem placeLE_total (f : Fin n → κ) (i j : Fin n) :
    (placeLE f i j || placeLE f j i) = true := by
  rw [Bool.or_eq_true, placeLE, placeLE, decide_eq_true_iff, decide_eq_true_iff]
  exact le_total _ _

/-- Sorting puts places in order and leaves those with the same content in theirs. -/
private theorem pairwise_mergeSort_finRange (f : Fin n → κ) :
    ((List.finRange n).mergeSort (placeLE f)).Pairwise fun i j => f i < f j ∨ f i = f j ∧ i < j := by
  rw [List.pairwise_iff_forall_sublist]
  intro i j hij
  have hsorted := List.pairwise_mergeSort (placeLE_trans f) (placeLE_total f) (List.finRange n)
  have hle : f i ≤ f j := of_decide_eq_true (List.pairwise_iff_forall_sublist.mp hsorted hij)
  rcases hle.lt_or_eq with hlt | heq
  · exact Or.inl hlt
  · -- The places with this content are still in the order of all places.
    have hordered : ((List.finRange n).filter fun k => f k = f j).Pairwise
        fun a b => placeLE f a b = true := by
      refine List.pairwise_of_forall_mem_list fun a ha b hb => decide_eq_true ?_
      have ha := of_decide_eq_true (List.mem_filter.mp ha).2
      have hb := of_decide_eq_true (List.mem_filter.mp hb).2
      exact (ha.trans hb.symm).le
    have hpair := hij.filter fun k => f k = f j
    rw [filter_mergeSort (placeLE_trans f) (placeLE_total f) hordered] at hpair
    simp only [heq, decide_true, List.filter_cons_of_pos, List.filter_nil] at hpair
    have hrange := hpair.trans List.filter_sublist
    exact Or.inr ⟨heq, List.pairwise_iff_forall_sublist.mp (List.pairwise_lt_finRange n) hrange⟩

/-- Sorting the places of a tuple gives the permutation that sorts the tuple stably. -/
private theorem mergeSort_finRange (f : Fin n → κ) :
    (List.finRange n).mergeSort (placeLE f) = List.ofFn (Tuple.sort f) := by
  obtain ⟨hmonotone, hstable⟩ := Tuple.eq_sort_iff.mp (Eq.refl (Tuple.sort f))
  have hplaces : (List.ofFn (Tuple.sort f)).Pairwise fun i j => f i < f j ∨ f i = f j ∧ i < j := by
    rw [List.pairwise_ofFn]
    intro i j hij
    rcases (hmonotone hij.le).lt_or_eq with hlt | heq
    · exact Or.inl hlt
    · exact Or.inr ⟨heq, hstable i j hij heq⟩
  have hperm : ((List.finRange n).mergeSort (placeLE f)).Perm (List.ofFn (Tuple.sort f)) := by
    rw [List.ofFn_eq_map]
    exact (List.mergeSort_perm _ _).trans (Equiv.Perm.map_finRange_perm _).symm
  refine List.Perm.eq_of_pairwise ?_ (pairwise_mergeSort_finRange f) hplaces hperm
  rintro i j _ _ (hij | ⟨hij, hlt⟩) (hji | ⟨hji, hgt⟩)
  · exact absurd hji hij.asymm
  · exact absurd hij hji.not_gt
  · exact absurd hji hij.not_gt
  · exact absurd hgt hlt.asymm

/-- A list sorted by a key has its items in the stable order of their keys. -/
theorem mergeSort_eq_ofFn (key : α → κ) (l : List α) :
    l.mergeSort (fun a b => decide (key a ≤ key b)) =
      List.ofFn fun k => l.get (Tuple.sort (fun i => key (l.get i)) k) := by
  have hitems : (List.finRange l.length).map l.get = l := List.map_get_finRange l
  have hsorted := List.map_mergeSort (l := List.finRange l.length)
    (r := placeLE fun i => key (l.get i)) (s := fun a b => decide (key a ≤ key b)) (f := l.get)
    fun _ _ _ _ => rfl
  rw [hitems, mergeSort_finRange, List.map_ofFn] at hsorted
  exact hsorted.symm

end Sorting

/-! ### Where the definitions stand -/

namespace Mapinfo

variable {blocks : List Block} {b : Block} {m m' : MapRecord} {token : String} {order : OrdinalOrder}

/-- The definition that stands in each place of the table: the one of that place in the text, or the
one that the stable sort of the tokens in upper case puts there. -/
def standing (order : OrdinalOrder) (blocks : List Block) : Equiv.Perm (Fin blocks.length) :=
  match order with
  | .declaration => Equiv.refl _
  | .sortedByToken => Tuple.sort fun i => upper (blocks.get i).token

/-- The order of the table puts the definitions where they stand. -/
theorem arrange_eq_ofFn (order : OrdinalOrder) (blocks : List Block) :
    arrange order blocks = List.ofFn fun k => blocks.get (standing order blocks k) := by
  cases order with
  | declaration => exact (List.ofFn_get blocks).symm
  | sortedByToken =>
    have hkey : (fun a b : Block => !decide (upper b.token < upper a.token)) =
        fun a b => decide (upper a.token ≤ upper b.token) := by
      funext a b
      rw [← decide_not]
      exact decide_eq_decide.mpr not_lt
    rw [arrange, hkey, mergeSort_eq_ofFn]
    rfl

theorem getElem?_arrange (order : OrdinalOrder) (k : Fin blocks.length) :
    (arrange order blocks)[(k : ℕ)]? = some (blocks.get (standing order blocks k)) := by
  rw [arrange_eq_ofFn, List.getElem?_ofFn, dif_pos k.isLt]

theorem length_arrange (order : OrdinalOrder) (blocks : List Block) :
    (arrange order blocks).length = blocks.length := by
  rw [arrange_eq_ofFn, List.length_ofFn]

/-- Each record is that of the definition in its place, under the number of the place, and knows the
token of the definition that follows. -/
theorem getElem?_records (ordinal : ℕ) (blocks : List Block) (k : ℕ) :
    (records ordinal blocks)[k]? = blocks[k]?.map fun b =>
      b.record (ordinal + k) (blocks[k + 1]?.map (·.token)) := by
  induction blocks generalizing ordinal k with
  | nil => rfl
  | cons b rest ih =>
    cases k with
    | zero => simp [records, List.head?_eq_getElem?]
    | succ k => simp [records, ih, Nat.add_assoc, Nat.add_comm 1 k]

/-- A definition of a map after which the text has no other of the same map. -/
def IsLast (token : String) (blocks : List Block) (i : Fin blocks.length) : Prop :=
  sameName (blocks.get i).token token = true ∧
    ∀ j, i < j → sameName (blocks.get j).token token = false

/-- A map that is defined has a last definition. -/
theorem exists_isLast (hb : b ∈ blocks) (hname : sameName b.token token = true) :
    ∃ i, IsLast token blocks i := by
  obtain ⟨i, hi, rfl⟩ := List.mem_iff_getElem.mp hb
  let named := Finset.univ.filter fun j : Fin blocks.length => sameName (blocks.get j).token token = true
  have hnamed : named.Nonempty := ⟨⟨i, hi⟩, Finset.mem_filter.mpr ⟨Finset.mem_univ _, hname⟩⟩
  obtain ⟨last, hlast, hmax⟩ := named.exists_max_image id hnamed
  refine ⟨last, (Finset.mem_filter.mp hlast).2, fun j hj => Bool.eq_false_iff.mpr fun hsame => ?_⟩
  exact absurd (hmax j (Finset.mem_filter.mpr ⟨Finset.mem_univ j, hsame⟩)) hj.not_ge

/-- The last definition of a map in the text is the last one of the map in the table, too. -/
theorem IsLast.of_standing {k j : Fin blocks.length}
    (h : IsLast token blocks (standing order blocks k)) (hkj : k < j) :
    sameName (blocks.get (standing order blocks j)).token token = false := by
  refine Bool.eq_false_iff.mpr fun hsame => ?_
  have hlater : standing order blocks k < standing order blocks j := by
    cases order with
    | declaration => exact hkj
    | sortedByToken =>
      have hkey := (Text.upper_eq_upper_iff.mpr h.1).trans (Text.upper_eq_upper_iff.mpr hsame).symm
      exact (Tuple.eq_sort_iff.mp rfl).2 k j hkj hkey
  exact absurd hsame (Bool.eq_false_iff.mp (h.2 _ hlater))

end Mapinfo

/-! ### What depends on the place -/

/-- The second record has all the properties of the first but the number and the next map. -/
def MapRecord.SameButPlace (m m' : MapRecord) : Prop :=
  m' = { m with ordinal := m'.ordinal, next := m'.next }

namespace Mapinfo

variable {b : Block} {m m' : MapRecord}

/-- What follows a map matters for its next map alone. -/
theorem Exits.ofProperties_congr (next secretNext following following' : Option String) :
    (Exits.ofProperties next secretNext following').endPic =
        (Exits.ofProperties next secretNext following).endPic ∧
      (Exits.ofProperties next secretNext following').secretNext =
        (Exits.ofProperties next secretNext following).secretNext := by
  unfold Exits.ofProperties
  cases next.bind endPicture? with
  | some pic => exact ⟨rfl, rfl⟩
  | none => cases next.any isEndGame <;> exact ⟨rfl, rfl⟩

/-- Two records of a definition differ in their places only. -/
theorem Block.IsRecord.sameButPlace (h : b.IsRecord m) (h' : b.IsRecord m') : m.SameButPlace m' := by
  obtain ⟨following, hm⟩ := h
  obtain ⟨following', hm'⟩ := h'
  obtain ⟨hendPic, hsecret⟩ :=
    Exits.ofProperties_congr (b.property? .next) (b.property? .secretNext) following following'
  rw [hm, hm']
  simp only [MapRecord.SameButPlace, Block.record, hendPic, hsecret]

end Mapinfo

namespace MapTable

variable {t : MapTable} {m : MapRecord} {token : String} {order : OrdinalOrder}
  {blocks : List Mapinfo.Block} {k : Fin blocks.length}

/-! ### Tables of definitions -/

/-- The table of definitions in an order. -/
def ofBlocks (order : OrdinalOrder) (blocks : List Mapinfo.Block) : MapTable :=
  ⟨Mapinfo.records 1 (Mapinfo.arrange order blocks)⟩

theorem numbered_ofBlocks (order : OrdinalOrder) (blocks : List Mapinfo.Block) :
    (ofBlocks order blocks).Numbered :=
  Mapinfo.map_ordinal_records 1 _

theorem length_maps_ofBlocks (order : OrdinalOrder) (blocks : List Mapinfo.Block) :
    (ofBlocks order blocks).maps.length = blocks.length := by
  rw [ofBlocks, Mapinfo.length_records, Mapinfo.length_arrange]

/-- In each place of the table is the record of the definition that stands there. -/
theorem exists_getElem?_ofBlocks (order : OrdinalOrder) (k : Fin blocks.length) :
    ∃ m, (ofBlocks order blocks).maps[(k : ℕ)]? = some m ∧
      (blocks.get (Mapinfo.standing order blocks k)).IsRecord m := by
  have hrecord := Mapinfo.getElem?_records 1 (Mapinfo.arrange order blocks) k
  rw [Mapinfo.getElem?_arrange, Option.map_some] at hrecord
  exact ⟨_, hrecord, Mapinfo.Block.isRecord_record _ _ _⟩

/-- Every map of the table is the record of the definition that stands in its place. -/
theorem exists_isRecord_of_getElem? {j : ℕ} (h : (ofBlocks order blocks).maps[j]? = some m) :
    ∃ k : Fin blocks.length, j = k ∧ (blocks.get (Mapinfo.standing order blocks k)).IsRecord m := by
  have hj : j < blocks.length := by
    rw [← length_maps_ofBlocks order blocks]
    exact (List.getElem?_eq_some_iff.mp h).1
  obtain ⟨m', hm', hrecord⟩ := exists_getElem?_ofBlocks order ⟨j, hj⟩
  obtain rfl : m = m' := Option.some.inj (h.symm.trans hm')
  exact ⟨⟨j, hj⟩, rfl, hrecord⟩

/-! ### What a token finds -/

/-- A token finds a map that it names if it names none of those that follow. -/
theorem find?_eq_some_of_last {j : ℕ} (hm : t.maps[j]? = some m)
    (hname : sameName m.token token = true)
    (hlast : ∀ i m', j < i → t.maps[i]? = some m' → sameName m'.token token = false) :
    t.find? token = some m := by
  obtain ⟨hj, rfl⟩ := List.getElem?_eq_some_iff.mp hm
  have hafter : (t.maps.drop (j + 1)).filter (fun m => sameName m.token token) = [] := by
    rw [List.filter_eq_nil_iff]
    intro m' hm'
    obtain ⟨i, hi⟩ := List.mem_iff_getElem?.mp hm'
    rw [List.getElem?_drop] at hi
    exact Bool.eq_false_iff.mp (hlast _ m' (by omega) hi)
  have hsplit := List.take_append_drop j t.maps
  rw [List.drop_eq_getElem_cons hj] at hsplit
  have hdeclared : t.declared token =
      (t.maps.take j).filter (fun m => sameName m.token token) ++ [t.maps[j]] := by
    conv_lhs => rw [declared, ← hsplit]
    rw [List.filter_append, List.filter_cons, if_pos hname, hafter]
  rw [find?_eq_getLast?_declared, hdeclared, List.getLast?_concat]

/-- A token finds the record of the last definition of its map. -/
theorem find?_ofBlocks (h : Mapinfo.IsLast token blocks (Mapinfo.standing order blocks k)) :
    (ofBlocks order blocks).find? token = (ofBlocks order blocks).maps[(k : ℕ)]? := by
  obtain ⟨m, hm, hrecord⟩ := exists_getElem?_ofBlocks order k
  rw [hm]
  refine find?_eq_some_of_last hm (hrecord.token_eq ▸ h.1) fun j m' hkj hm' => ?_
  obtain ⟨j, rfl, hrecord'⟩ := exists_isRecord_of_getElem? hm'
  rw [hrecord'.token_eq]
  exact h.of_standing (Fin.lt_def.mpr hkj)

/-- The token of a map that is not defined finds nothing. -/
theorem find?_ofBlocks_eq_none (h : ∀ b ∈ blocks, sameName b.token token = false) :
    (ofBlocks order blocks).find? token = none := by
  rw [find?_eq_none_iff]
  intro m hm
  obtain ⟨j, hj⟩ := List.mem_iff_getElem?.mp hm
  obtain ⟨k, _, hrecord⟩ := exists_isRecord_of_getElem? hj
  rw [hrecord.token_eq]
  exact h _ (List.getElem_mem _)

/-! ### Two tables of the same definitions -/

/-- The table in the order of the text and the one in the order of the tokens hold the same maps. -/
structure DifferInPlaces (blocks : List Mapinfo.Block) (declared sorted : MapTable) : Prop where
  length_declared : declared.maps.length = blocks.length
  length_sorted : sorted.maps.length = blocks.length
  numbered_declared : declared.Numbered
  numbered_sorted : sorted.Numbered
  /-- In each place of the sorted table is the map that the stable sort puts there. -/
  same_but_place : ∀ k, ∃ m m',
    declared.maps[(Mapinfo.standing .sortedByToken blocks k : ℕ)]? = some m ∧
      sorted.maps[(k : ℕ)]? = some m' ∧
      (blocks.get (Mapinfo.standing .sortedByToken blocks k)).IsRecord m ∧ m.SameButPlace m'
  /-- A token finds the record of the same definition in both, the last one of its map. -/
  same_definition : ∀ token,
    (∀ b ∈ blocks, sameName b.token token = false) ∧
        declared.find? token = none ∧ sorted.find? token = none ∨
      ∃ k, Mapinfo.IsLast token blocks (Mapinfo.standing .sortedByToken blocks k) ∧
        declared.find? token =
          declared.maps[(Mapinfo.standing .sortedByToken blocks k : ℕ)]? ∧
        sorted.find? token = sorted.maps[(k : ℕ)]?

/-- The map in a place of the sorted table and its declaration differ in their places only. -/
theorem exists_sameButPlace (k : Fin blocks.length) :
    ∃ m m', (ofBlocks .declaration blocks).maps[(Mapinfo.standing .sortedByToken blocks k : ℕ)]? =
        some m ∧ (ofBlocks .sortedByToken blocks).maps[(k : ℕ)]? = some m' ∧
      (blocks.get (Mapinfo.standing .sortedByToken blocks k)).IsRecord m ∧ m.SameButPlace m' := by
  obtain ⟨m, hm, hrecord⟩ :=
    exists_getElem?_ofBlocks .declaration (Mapinfo.standing .sortedByToken blocks k)
  obtain ⟨m', hm', hrecord'⟩ := exists_getElem?_ofBlocks .sortedByToken k
  exact ⟨m, m', hm, hm', hrecord, hrecord.sameButPlace hrecord'⟩

/-- A token finds nothing in both tables, or the last definition of its map in both. -/
theorem find?_eq_none_or_isLast (blocks : List Mapinfo.Block) (token : String) :
    (∀ b ∈ blocks, sameName b.token token = false) ∧
        (ofBlocks .declaration blocks).find? token = none ∧
        (ofBlocks .sortedByToken blocks).find? token = none ∨
      ∃ k, Mapinfo.IsLast token blocks (Mapinfo.standing .sortedByToken blocks k) ∧
        (ofBlocks .declaration blocks).find? token =
          (ofBlocks .declaration blocks).maps[(Mapinfo.standing .sortedByToken blocks k : ℕ)]? ∧
        (ofBlocks .sortedByToken blocks).find? token =
          (ofBlocks .sortedByToken blocks).maps[(k : ℕ)]? := by
  by_cases hnamed : ∃ b ∈ blocks, sameName b.token token = true
  · obtain ⟨b, hb, hname⟩ := hnamed
    obtain ⟨i, hi⟩ := Mapinfo.exists_isLast hb hname
    obtain ⟨k, rfl⟩ := (Mapinfo.standing .sortedByToken blocks).surjective i
    have hdeclared : Mapinfo.IsLast token blocks
        (Mapinfo.standing .declaration blocks (Mapinfo.standing .sortedByToken blocks k)) := hi
    exact Or.inr ⟨k, hi, find?_ofBlocks hdeclared, find?_ofBlocks hi⟩
  · have hnone : ∀ b ∈ blocks, sameName b.token token = false :=
      fun b hb => Bool.eq_false_iff.mpr fun hname => hnamed ⟨b, hb, hname⟩
    exact Or.inl ⟨hnone, find?_ofBlocks_eq_none hnone, find?_ofBlocks_eq_none hnone⟩

/-- The tables of a text in the two orders hold the same maps, numbered from one on. The sorted one
has them in the stable order of their tokens in upper case, with other numbers and next maps only,
and a token finds the last definition of its map in both. -/
theorem orders_differ_in_places (text : String) :
    DifferInPlaces (Mapinfo.scan text.toList).blocks (ofText text .declaration)
      (ofText text .sortedByToken) where
  length_declared := length_maps_ofBlocks .declaration _
  length_sorted := length_maps_ofBlocks .sortedByToken _
  numbered_declared := numbered_ofBlocks .declaration _
  numbered_sorted := numbered_ofBlocks .sortedByToken _
  same_but_place := exists_sameButPlace
  same_definition := find?_eq_none_or_isLast _

end MapTable

end Interlude
