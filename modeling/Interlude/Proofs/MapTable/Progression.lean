import Mathlib
import Interlude.Proofs.MapTable.Orders
import Interlude.Proofs.MapTable.ReadBack

/-!
# The way from map to map

A next map is left out of the written table where it is the one that follows there, whatever the
case of its letters. A reader who goes on to the following block where no next map is written thus
comes to the map that the definition names. This holds in both orders of the table, although other
maps follow and other next maps are written, so the two written tables lead the same way.
-/

namespace Interlude

open Text (sameName)

namespace Mapinfo

variable {b : Block} {n : String} {order : OrdinalOrder} {blocks : List Block}

/-- Where the player goes from each definition: to the next map that it names, or else to the map of
the definition that follows. -/
def successors : List Block → List (Option String)
  | [] => []
  | b :: rest => (b.property? .next).or (rest.head?.map (·.token)) :: successors rest

theorem getElem?_successors (blocks : List Block) (k : ℕ) :
    (successors blocks)[k]? = blocks[k]?.map fun b =>
      (b.property? .next).or (blocks[k + 1]?.map (·.token)) := by
  induction blocks generalizing k with
  | nil => rfl
  | cons b rest ih =>
    cases k with
    | zero => simp [successors, List.head?_eq_getElem?]
    | succ k => simp [successors, ih]

/-- The next map of a definition is another map: neither a picture nor the end of the game. -/
structure Block.GoesTo (b : Block) (n : String) : Prop where
  property_eq : b.property? .next = some n
  no_picture : endPicture? n = none
  no_end : isEndGame n = false

/-- A record has the next map of its definition unless that is the one that follows. -/
theorem Block.GoesTo.next_record_eq (h : b.GoesTo n) (ordinal : ℕ) {following : Option String}
    (hother : ∀ f ∈ following, sameName f n = false) :
    (b.record ordinal following).next = some n := by
  refine Exits.next_ofProperties_eq_some_iff.mpr ⟨h.property_eq, h.no_picture, h.no_end, ?_⟩
  cases following with
  | none => rfl
  | some f => simp [hother f rfl]

/-- A record has no next map where that is the one that follows. -/
theorem Block.GoesTo.next_record_eq_none (h : b.GoesTo n) (ordinal : ℕ) {f : String}
    (hsame : sameName f n = true) : (b.record ordinal (some f)).next = none := by
  refine Option.eq_none_iff_forall_ne_some.mpr fun v hv => ?_
  obtain ⟨hnext, _, _, hother⟩ := Exits.next_ofProperties_eq_some_iff.mp hv
  obtain rfl : n = v := Option.some.inj (h.property_eq.symm.trans hnext)
  simp [hsame] at hother

/-- The next map of a record or else the map that follows is the one that the definition names. -/
theorem Block.GoesTo.exists_successor (h : b.GoesTo n) (ordinal : ℕ) (following : Option String) :
    ∃ successor, (b.record ordinal following).next.or following = some successor ∧
      sameName successor n = true := by
  by_cases hother : ∀ f ∈ following, sameName f n = false
  · rw [h.next_record_eq ordinal hother]
    exact ⟨n, rfl, Text.sameName_refl n⟩
  · push Not at hother
    obtain ⟨f, rfl, hsame⟩ := hother
    have hsame : sameName f n = true := by simpa using hsame
    rw [h.next_record_eq_none ordinal hsame]
    exact ⟨f, rfl, hsame⟩

end Mapinfo

/-! ### The written table -/

namespace Umapinfo

variable {b : Mapinfo.Block} {blocks : List Mapinfo.Block} {n : String} {k : ℕ}
  {order : OrdinalOrder}

/-- The definitions that the written table of a text reads as. -/
def writtenBlocks (text : String) (order : OrdinalOrder) : List Mapinfo.Block :=
  (Mapinfo.scan (render (MapTable.ofText text order)).toList).blocks

/-- The definitions of a text can be written in the order of its table. -/
theorem isPlain_of_mem_arrange (text : String) (order : OrdinalOrder) :
    ∀ b ∈ Mapinfo.arrange order (Mapinfo.scan text.toList).blocks, b.IsPlain :=
  fun b hb => Mapinfo.isPlain_of_mem_scan text.toList b (Mapinfo.mem_arrange.mp hb)

/-- The written table of a text has a definition for each of the maps. -/
theorem writtenBlocks_eq (text : String) (order : OrdinalOrder) :
    writtenBlocks text order = (Mapinfo.records 1
      (Mapinfo.arrange order (Mapinfo.scan text.toList).blocks)).map definition := by
  have hplain : ∀ m ∈ (MapTable.ofText text order).maps, IsPlain m :=
    fun m hm => isPlain_of_mem_records (isPlain_of_mem_arrange text order) hm
  rw [writtenBlocks, scan_render (MapTable.numbered_ofText text order) hplain]
  rfl

/-- The block of each map has the next map of the record. -/
theorem getElem?_definitions (hplain : ∀ b ∈ blocks, b.IsPlain) (hb : blocks[k]? = some b) :
    ∃ written, ((Mapinfo.records 1 blocks).map definition)[k]? = some written ∧
      written.token = b.token ∧
      written.property? .next = (b.record (1 + k) (blocks[k + 1]?.map (·.token))).next := by
  refine ⟨definition (b.record (1 + k) (blocks[k + 1]?.map (·.token))), ?_, rfl,
    (property?_definition_record (hplain b (List.mem_of_getElem? hb)) _ _).1⟩
  rw [List.getElem?_map, Mapinfo.getElem?_records, hb]
  rfl

/-- The blocks of the maps have the tokens of the definitions. -/
theorem getElem?_token_definitions (blocks : List Mapinfo.Block) (k : ℕ) :
    ((Mapinfo.records 1 blocks).map definition)[k]?.map (·.token) = blocks[k]?.map (·.token) := by
  rw [List.getElem?_map, Mapinfo.getElem?_records, Option.map_map, Option.map_map]
  rfl

/-- The written blocks lead from a map to the one that its definition names. -/
theorem exists_successor_definitions (hplain : ∀ b ∈ blocks, b.IsPlain) (hb : blocks[k]? = some b)
    (hgoes : b.GoesTo n) :
    ∃ successor, (Mapinfo.successors ((Mapinfo.records 1 blocks).map definition))[k]? =
      some (some successor) ∧ sameName successor n = true := by
  obtain ⟨written, hwritten, _, hnext⟩ := getElem?_definitions hplain hb
  obtain ⟨successor, hsuccessor, hsame⟩ :=
    hgoes.exists_successor (1 + k) (blocks[k + 1]?.map (·.token))
  refine ⟨successor, ?_, hsame⟩
  rw [Mapinfo.getElem?_successors, hwritten, getElem?_token_definitions, Option.map_some, hnext,
    hsuccessor]

/-- The last block always has the next map that its definition names. -/
theorem property?_next_last (hplain : ∀ b ∈ blocks, b.IsPlain) (hb : blocks.getLast? = some b)
    (hgoes : b.GoesTo n) :
    ((Mapinfo.records 1 blocks).map definition).getLast?.bind (·.property? .next) = some n := by
  rw [List.getLast?_eq_getElem?] at hb
  obtain ⟨written, hwritten, _, hnext⟩ := getElem?_definitions hplain hb
  have hend : blocks[blocks.length - 1 + 1]? = none := List.getElem?_eq_none (by omega)
  rw [hend, Option.map_none, hgoes.next_record_eq _ (fun f hf => absurd hf (by simp))] at hnext
  rw [List.getLast?_eq_getElem?, List.length_map, Mapinfo.length_records, hwritten,
    Option.bind_some, hnext]

/-- The written blocks of a table lead from a definition to the next map `n`: the block in its place
has its token and goes to `successor`, which is the same map, and the last block says so itself. -/
structure LeadsTo (order : OrdinalOrder) (blocks written : List Mapinfo.Block)
    (i : Fin blocks.length) (n successor : String) : Prop where
  length_eq : written.length = blocks.length
  exists_place : ∃ k, Mapinfo.standing order blocks k = i ∧
    written[(k : ℕ)]?.map (·.token) = some (blocks.get i).token ∧
    (Mapinfo.successors written)[(k : ℕ)]? = some (some successor) ∧
    ((k : ℕ) + 1 = blocks.length → written.getLast?.bind (·.property? .next) = some n)
  sameName_eq : sameName successor n = true

/-- The written blocks of a table lead from every definition to the next map that it names. -/
theorem exists_leadsTo (hplain : ∀ b ∈ Mapinfo.arrange order blocks, b.IsPlain)
    {i : Fin blocks.length} (hgoes : (blocks.get i).GoesTo n) :
    ∃ successor, LeadsTo order blocks
      ((Mapinfo.records 1 (Mapinfo.arrange order blocks)).map definition) i n successor := by
  obtain ⟨k, rfl⟩ := (Mapinfo.standing order blocks).surjective i
  have hb := Mapinfo.getElem?_arrange order k
  obtain ⟨successor, hsuccessor, hsame⟩ := exists_successor_definitions hplain hb hgoes
  refine ⟨successor, ?_, ⟨k, rfl, ?_, hsuccessor, fun hk => ?_⟩, hsame⟩
  · rw [List.length_map, Mapinfo.length_records, Mapinfo.length_arrange]
  · rw [getElem?_token_definitions, hb]
    rfl
  · have hlast : blocks.length - 1 = k := by omega
    refine property?_next_last hplain ?_ hgoes
    rw [List.getLast?_eq_getElem?, Mapinfo.length_arrange, hlast, hb]

end Umapinfo

/-- The written table of a text leads from a map to the next map that its definition names, in
either order and to the same one up to case. -/
theorem MapTable.render_keeps_successors (text : String) {n : String}
    {i : Fin (Mapinfo.scan text.toList).blocks.length}
    (hgoes : ((Mapinfo.scan text.toList).blocks.get i).GoesTo n) :
    ∃ successor : OrdinalOrder → String,
      (∀ order, Umapinfo.LeadsTo order (Mapinfo.scan text.toList).blocks
        (Umapinfo.writtenBlocks text order) i n (successor order)) ∧
      sameName (successor .declaration) (successor .sortedByToken) = true := by
  have hleads : ∀ order, ∃ successor, Umapinfo.LeadsTo order (Mapinfo.scan text.toList).blocks
      (Umapinfo.writtenBlocks text order) i n successor := by
    intro order
    rw [Umapinfo.writtenBlocks_eq]
    exact Umapinfo.exists_leadsTo (Umapinfo.isPlain_of_mem_arrange text order) hgoes
  choose successor hsuccessor using hleads
  exact ⟨successor, hsuccessor, Text.sameName_trans (hsuccessor .declaration).sameName_eq
    (Text.sameName_symm (hsuccessor .sortedByToken).sameName_eq)⟩

/-- So it is with two maps that lead to each other and are declared against the order of their
tokens: each order leaves out another next map. -/
theorem MapTable.render_keeps_successors_round :
    let text := "map MAP02 \x7b\nnext = map01\n\x7d\nmap MAP01 \x7b\nnext = \"MAP02\"\n\x7d"
    ∃ i : Fin (Mapinfo.scan text.toList).blocks.length,
      ((Mapinfo.scan text.toList).blocks.get i).GoesTo "map01" ∧
      ∃ successor : OrdinalOrder → String,
        (∀ order, Umapinfo.LeadsTo order (Mapinfo.scan text.toList).blocks
          (Umapinfo.writtenBlocks text order) i "map01" (successor order)) ∧
        sameName (successor .declaration) (successor .sortedByToken) = true := by
  intro text
  have hfirst : (Mapinfo.scan text.toList).blocks[0]? = some ⟨"MAP02", [(.next, "map01")]⟩ := by
    decide +kernel
  obtain ⟨hpos, hblock⟩ := List.getElem?_eq_some_iff.mp hfirst
  have hgoes : ((Mapinfo.scan text.toList).blocks.get ⟨0, hpos⟩).GoesTo "map01" := by
    rw [List.get_eq_getElem, hblock]
    exact ⟨by decide, by decide, by decide⟩
  exact ⟨⟨0, hpos⟩, hgoes, MapTable.render_keeps_successors text hgoes⟩

end Interlude
