import Mathlib
import Interlude.MapTable.Mapinfo
import Interlude.Proofs.Text.LetterCase

/-!
# Declarations and their numbers

The records of a map table stand for the definitions of the text one by one, and their numbers
count them from one. Sorting moves definitions of different maps only: those of one map, whatever
the case of their tokens, keep their order. So the last definition of a map in the text is the one
that its token finds in the table, and its number tells it from every other map.
-/

namespace Interlude

/-- Sorting is stable: items that are in order among themselves are left in their order. -/
theorem filter_mergeSort {α : Type} {le : α → α → Bool} {p : α → Bool} {l : List α}
    (htrans : ∀ a b c, le a b = true → le b c = true → le a c = true)
    (htotal : ∀ a b, (le a b || le b a) = true)
    (hordered : (l.filter p).Pairwise fun a b => le a b = true) :
    (l.mergeSort le).filter p = l.filter p := by
  have hkept : (l.filter p).Sublist (l.mergeSort le) :=
    List.sublist_mergeSort htrans htotal hordered List.filter_sublist
  have hsublist := hkept.filter p
  rw [List.filter_filter] at hsublist
  simp only [Bool.and_self] at hsublist
  have hlength := ((List.mergeSort_perm l le).filter p).length_eq
  exact (hsublist.eq_of_length hlength.symm).symm

namespace Mapinfo

open Text (sameName upper)

variable {b : Block} {m : MapRecord}

/-! ### Definitions and records -/

/-- A record of a definition under the record's own number. -/
def Block.IsRecord (b : Block) (m : MapRecord) : Prop :=
  ∃ following, m = b.record m.ordinal following

theorem Block.isRecord_record (b : Block) (n : Nat) (following : Option String) :
    b.IsRecord (b.record n following) :=
  ⟨following, rfl⟩

/-- A record has the token of its definition. -/
theorem Block.IsRecord.token_eq (h : b.IsRecord m) : m.token = b.token := by
  obtain ⟨following, hm⟩ := h
  rw [hm]
  rfl

/-- The records stand for the definitions one by one. -/
theorem forall₂_isRecord_records (ordinal : Nat) (blocks : List Block) :
    List.Forall₂ Block.IsRecord blocks (records ordinal blocks) := by
  induction blocks generalizing ordinal with
  | nil => exact List.Forall₂.nil
  | cons b rest ih => exact List.Forall₂.cons (b.isRecord_record ordinal _) (ih (ordinal + 1))

theorem length_records (ordinal : Nat) (blocks : List Block) :
    (records ordinal blocks).length = blocks.length :=
  (forall₂_isRecord_records ordinal blocks).length_eq.symm

/-- The numbers of the records count them. -/
theorem map_ordinal_records (ordinal : Nat) (blocks : List Block) :
    (records ordinal blocks).map (·.ordinal) =
      List.range' ordinal (records ordinal blocks).length := by
  induction blocks generalizing ordinal with
  | nil => rfl
  | cons b rest ih =>
    rw [records, List.map_cons, ih (ordinal + 1), List.length_cons, List.range'_succ]
    rfl

/-- The order of the table keeps all definitions. -/
theorem mem_arrange {order : OrdinalOrder} {blocks : List Block} :
    b ∈ arrange order blocks ↔ b ∈ blocks := by
  cases order with
  | declaration => rfl
  | sortedByToken => exact List.mem_mergeSort

/-! ### The definitions of one map -/

/-- The definitions of a map in their order. -/
def declarations (token : String) (blocks : List Block) : List Block :=
  blocks.filter fun b => sameName b.token token

/-- The order of definitions by their tokens in upper case. -/
private def tokenLE (a b : Block) : Bool :=
  !decide (upper b.token < upper a.token)

private theorem tokenLE_iff {a b : Block} :
    tokenLE a b = true ↔ upper a.token ≤ upper b.token := by
  rw [tokenLE, Bool.not_eq_true', decide_eq_false_iff_not, not_lt]

private theorem tokenLE_trans (a b c : Block) (hab : tokenLE a b = true) (hbc : tokenLE b c = true) :
    tokenLE a c = true :=
  tokenLE_iff.mpr ((tokenLE_iff.mp hab).trans (tokenLE_iff.mp hbc))

private theorem tokenLE_total (a b : Block) : (tokenLE a b || tokenLE b a) = true := by
  rw [Bool.or_eq_true, tokenLE_iff, tokenLE_iff]
  exact le_total _ _

private theorem pairwise_tokenLE_declarations (token : String) (blocks : List Block) :
    (declarations token blocks).Pairwise fun a b => tokenLE a b = true := by
  rw [List.pairwise_iff_forall_sublist]
  intro a b hab
  have ha : a ∈ declarations token blocks := hab.subset List.mem_cons_self
  have hb : b ∈ declarations token blocks :=
    hab.subset (List.mem_cons_of_mem a List.mem_cons_self)
  have ha := Text.upper_eq_upper_iff.mpr (List.mem_filter.mp ha).2
  have hb := Text.upper_eq_upper_iff.mpr (List.mem_filter.mp hb).2
  exact tokenLE_iff.mpr (ha.trans hb.symm).le

/-- The order of the table leaves the definitions of one map in the order of the text. -/
theorem declarations_arrange (order : OrdinalOrder) (token : String) (blocks : List Block) :
    declarations token (arrange order blocks) = declarations token blocks := by
  cases order with
  | declaration => rfl
  | sortedByToken =>
    -- Among themselves the definitions of a map are in order already.
    exact filter_mergeSort tokenLE_trans tokenLE_total (pairwise_tokenLE_declarations token blocks)

end Mapinfo

namespace MapTable

open Text (sameName)

variable {t : MapTable} {m m' : MapRecord} {token other : String} {c : Nat}

/-! ### Finding a map -/

/-- The records of a map in their order. -/
def declared (t : MapTable) (token : String) : List MapRecord :=
  t.maps.filter fun m => sameName m.token token

/-- A token finds the last record of its map. -/
theorem find?_eq_getLast?_declared (t : MapTable) (token : String) :
    t.find? token = (t.declared token).getLast? := by
  rw [find?, ← List.head?_filter, List.filter_reverse, List.head?_reverse]
  rfl

/-- The record that a token finds is of the table. -/
theorem mem_of_find? (h : t.find? token = some m) : m ∈ t.maps :=
  List.mem_reverse.mp (List.mem_of_find?_eq_some h)

/-- The record that a token finds has the token up to case. -/
theorem sameName_of_find? (h : t.find? token = some m) : sameName m.token token = true :=
  List.find?_some (p := fun m : MapRecord => sameName m.token token) h

/-- Only a token without a record finds nothing. -/
theorem find?_eq_none_iff :
    t.find? token = none ↔ ∀ m ∈ t.maps, sameName m.token token = false := by
  rw [find?, List.find?_eq_none]
  simp only [List.mem_reverse, Bool.not_eq_true]

/-! ### Numbers -/

/-- The maps are numbered from one on in their order. -/
def Numbered (t : MapTable) : Prop :=
  t.maps.map (·.ordinal) = List.range' 1 t.maps.length

/-- No map has the number zero. -/
theorem Numbered.ordinal_ne_zero (ht : t.Numbered) (hm : m ∈ t.maps) : m.ordinal ≠ 0 := by
  have hmem : m.ordinal ∈ t.maps.map (·.ordinal) := List.mem_map_of_mem hm
  rw [ht, List.mem_range'_1] at hmem
  omega

/-- Maps with the same number are the same. -/
theorem Numbered.eq_of_ordinal_eq (ht : t.Numbered) (hm : m ∈ t.maps) (hm' : m' ∈ t.maps)
    (h : m.ordinal = m'.ordinal) : m = m' := by
  have hnodup : (t.maps.map (·.ordinal)).Nodup := by
    rw [ht]
    exact List.nodup_range'
  exact List.inj_on_of_nodup_map hnodup hm hm' h

/-- Tokens with the same number are equal up to case. -/
theorem Numbered.sameName_of_ordinal? (ht : t.Numbered) (htoken : t.ordinal? token = some c)
    (hother : t.ordinal? other = some c) : sameName token other = true := by
  obtain ⟨m, hm, rfl⟩ := Option.map_eq_some_iff.mp htoken
  obtain ⟨m', hm', hordinal⟩ := Option.map_eq_some_iff.mp hother
  have heq : m' = m := ht.eq_of_ordinal_eq (mem_of_find? hm') (mem_of_find? hm) hordinal
  rw [heq] at hm'
  exact Text.sameName_trans (Text.sameName_symm (sameName_of_find? hm)) (sameName_of_find? hm')

/-! ### The table of a text -/

/-- The last of one list stands over the last of a list that agrees with it item by item. -/
private theorem exists_getLast?_of_forall₂ {α β : Type} {R : α → β → Prop} {l : List α} {k : List β}
    {y : β} (h : List.Forall₂ R l k) (hy : k.getLast? = some y) :
    ∃ x, l.getLast? = some x ∧ R x y := by
  have hreverse : List.Forall₂ R l.reverse k.reverse := List.rel_reverse h
  rw [List.getLast?_eq_head?_reverse] at hy
  obtain ⟨k', hk⟩ := List.head?_eq_some_iff.mp hy
  rw [hk, List.forall₂_cons_right_iff] at hreverse
  obtain ⟨x, l', hxy, _, hl⟩ := hreverse
  refine ⟨x, ?_, hxy⟩
  rw [List.getLast?_eq_head?_reverse, hl]
  rfl

/-- The table of a text is numbered. -/
theorem numbered_ofText (text : String) (order : OrdinalOrder) : (ofText text order).Numbered :=
  Mapinfo.map_ordinal_records 1 _

/-- The definitions of a map in a text and its records in the table are the same in number and
order, whatever the order of the table. -/
theorem forall₂_declared_ofText (text : String) (order : OrdinalOrder) (token : String) :
    List.Forall₂ Mapinfo.Block.IsRecord
      (Mapinfo.declarations token (Mapinfo.scan text.toList).blocks)
      ((ofText text order).declared token) := by
  rw [← Mapinfo.declarations_arrange order]
  refine List.rel_filter ?_ (Mapinfo.forall₂_isRecord_records 1 _)
  intro b m hrecord
  change sameName b.token token = true ↔ sameName m.token token = true
  rw [hrecord.token_eq]

/-- The last definition of a map in a text, whatever the case of its token there, has the number `c`
in the table. -/
def LastDeclared (text : String) (order : OrdinalOrder) (token : String) (c : Nat) : Prop :=
  ∃ b m, (Mapinfo.declarations token (Mapinfo.scan text.toList).blocks).getLast? = some b ∧
    ((ofText text order).declared token).getLast? = some m ∧ b.IsRecord m ∧ m.ordinal = c

/-- A token has the number of the last definition of its map. -/
theorem ordinal?_ofText_eq_some_iff {text : String} {order : OrdinalOrder} :
    (ofText text order).ordinal? token = some c ↔ LastDeclared text order token c := by
  constructor
  · intro h
    obtain ⟨m, hm, rfl⟩ := Option.map_eq_some_iff.mp h
    rw [find?_eq_getLast?_declared] at hm
    obtain ⟨b, hb, hrecord⟩ := exists_getLast?_of_forall₂ (forall₂_declared_ofText text order token) hm
    exact ⟨b, m, hb, hm, hrecord, rfl⟩
  · rintro ⟨_, m, _, hm, _, rfl⟩
    rw [ordinal?, find?_eq_getLast?_declared, hm]
    rfl

/-- The scripts of the maps are in the order in which insertion puts them. -/
theorem scripts_eq_insertionSort (t : MapTable) :
    t.scripts = ((t.maps.flatMap fun m =>
      [m.enterScript, m.exitScript].filterMap id).eraseDups).insertionSort (· ≤ ·) := by
  rw [scripts, ← List.mergeSort_eq_insertionSort]
  congr 1
  funext a b
  rw [← decide_not]
  exact decide_eq_decide.mpr not_lt

end MapTable

end Interlude
