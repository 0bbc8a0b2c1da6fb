import Mathlib
import Interlude.Proofs.MapTable.Orders
import Interlude.Proofs.MapTable.ReadBack

/-!
# Map tables of joined texts

The table of two texts, one below the other, has the maps of the first and then those of the second,
which are counted on from there. Only the last map of the first is affected by what follows it: its
next map becomes implicit if the second text begins with it.
-/

namespace Interlude

/-- The map with its number moved up. -/
def MapRecord.shift (k : ℕ) (m : MapRecord) : MapRecord :=
  { m with ordinal := m.ordinal + k }

/-- The map before one with the token `following`: its next map is left out if it is that one. -/
def MapRecord.before (following : Option String) (m : MapRecord) : MapRecord :=
  { m with next := Mapinfo.explicitNext m.next following }

/-- The maps of a table, and then those of another one, counted on from there. -/
def MapTable.join (t u : MapTable) : MapTable where
  maps := t.maps.dropLast ++
    (t.maps.getLast?.map (·.before (u.maps.head?.map (·.token)))).toList ++
    u.maps.map (·.shift t.maps.length)

namespace Mapinfo

variable {following : Option String}

/-! ### Records of definitions in a row -/

/-- A map that follows takes away the next map that it is. -/
theorem Exits.next_ofProperties (next secretNext : Option String) :
    (Exits.ofProperties next secretNext following).next =
      explicitNext (Exits.ofProperties next secretNext none).next following := by
  ext v
  rw [explicitNext, Option.filter_eq_some_iff, Exits.next_ofProperties_eq_some_iff,
    Exits.next_ofProperties_eq_some_iff, Option.all_none]
  tauto

/-- The record of a definition that another one follows is that of the definition alone, but for
the next map. -/
theorem Block.record_eq_before (b : Block) (n : ℕ) (following : Option String) :
    b.record n following = (b.record n none).before following := by
  have hsame : (b.record n none).SameButPlace (b.record n following) :=
    (b.isRecord_record n none).sameButPlace (b.isRecord_record n following)
  have hnext : (b.record n following).next = explicitNext (b.record n none).next following :=
    Exits.next_ofProperties _ _
  rw [MapRecord.before, ← hnext]
  exact hsame

/-- Counting the definitions from a later number on moves the numbers of their records up. -/
theorem records_add (n k : ℕ) (blocks : List Block) :
    records (n + k) blocks = (records n blocks).map (·.shift k) := by
  induction blocks generalizing n with
  | nil => rfl
  | cons b rest ih =>
    rw [records, records, List.map_cons, ← ih (n + 1), Nat.add_right_comm]
    rfl

/-- What follows a definition matters for its own record and for none before it. -/
theorem exists_records_append (n : ℕ) (blocks : List Block) (b : Block) :
    ∃ front, ∀ rest, records n (blocks ++ b :: rest) =
      front ++ b.record (n + blocks.length) (rest.head?.map (·.token)) ::
        records (n + (blocks.length + 1)) rest := by
  induction blocks generalizing n with
  | nil => exact ⟨[], fun rest => rfl⟩
  | cons first blocks ih =>
    obtain ⟨front, hfront⟩ := ih (n + 1)
    refine ⟨first.record n ((blocks ++ [b]).head?.map (·.token)) :: front, fun rest => ?_⟩
    have hfollowing : (blocks ++ b :: rest).head? = (blocks ++ [b]).head? := by
      cases blocks <;> rfl
    have hcount : n + 1 + blocks.length = n + (blocks.length + 1) := by omega
    rw [List.cons_append, records, hfront, hfollowing, ← Nat.add_assoc, hcount]
    rfl

/-- The first record has the token of the first definition. -/
theorem head?_token_records (n : ℕ) (blocks : List Block) :
    (records n blocks).head?.map (·.token) = blocks.head?.map (·.token) := by
  cases blocks <;> rfl

end Mapinfo

namespace MapTable

/-- The table of definitions and others behind them is that of both tables. -/
theorem ofBlocks_append (blocks rest : List Mapinfo.Block) :
    ofBlocks .declaration (blocks ++ rest) =
      (ofBlocks .declaration blocks).join (ofBlocks .declaration rest) := by
  have hlength := length_maps_ofBlocks .declaration blocks
  have hfollowing : (ofBlocks .declaration rest).maps.head?.map (·.token) =
      rest.head?.map (·.token) := Mapinfo.head?_token_records 1 rest
  rw [join, hlength, hfollowing]
  rcases List.eq_nil_or_concat' blocks with rfl | ⟨init, last, rfl⟩
  · exact congrArg MapTable.mk (Mapinfo.records_add 1 0 rest)
  · obtain ⟨front, hfront⟩ := Mapinfo.exists_records_append 1 init last
    have halone : (ofBlocks .declaration (init ++ [last])).maps =
        front ++ [last.record (1 + init.length) none] := hfront []
    have hboth : ofBlocks .declaration (init ++ [last] ++ rest) =
        ⟨front ++ last.record (1 + init.length) (rest.head?.map (·.token)) ::
          Mapinfo.records (1 + (init.length + 1)) rest⟩ := by
      rw [List.append_assoc]
      exact congrArg MapTable.mk (hfront rest)
    rw [hboth, halone, List.dropLast_concat, List.getLast?_concat, List.length_append,
      List.length_singleton, Mapinfo.records_add, Mapinfo.Block.record_eq_before last,
      List.append_assoc]
    rfl

/-- The table of two texts, one below the other, has the maps of both if the first text does not
break off within a definition, and what is wrong at the end is what is wrong with the second. -/
theorem ofText_append_newline (first second : String) (h : faultOfText first = none) :
    ofText (first ++ "\n" ++ second) .declaration =
        (ofText first .declaration).join (ofText second .declaration) ∧
      faultOfText (first ++ "\n" ++ second) = faultOfText second := by
  have htext : (first ++ "\n" ++ second).toList = first.toList ++ '\n' :: second.toList := by
    simp
  have hscan := Mapinfo.scan_append_newline h second.toList
  constructor
  · have hblocks := ofBlocks_append (Mapinfo.scan first.toList).blocks
      (Mapinfo.scan second.toList).blocks
    rw [ofText, htext, hscan]
    exact hblocks
  · rw [faultOfText, htext, hscan]
    rfl

/-- So it is where the second text begins with the next map of the first, and the first ends behind
a block in the middle of a line. -/
theorem ofText_append_newline_implicit_next :
    let first := "episode 1\nmap E1M1\n\x7b\nnext = \"E1M2\"\n\x7d cluster"
    let second := "map e1m2 \x7b music = \"D_E1M2\" \x7d"
    faultOfText first = none ∧
      ofText (first ++ "\n" ++ second) .declaration =
        (ofText first .declaration).join (ofText second .declaration) ∧
      faultOfText (first ++ "\n" ++ second) = faultOfText second := by
  intro first second
  have hfault : faultOfText first = none := by decide +kernel
  exact ⟨hfault, ofText_append_newline first second hfault⟩

end MapTable

end Interlude
