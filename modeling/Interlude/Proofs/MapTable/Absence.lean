import Mathlib
import Interlude.Proofs.MapTable.LineForms

/-!
# Absent and empty values

An empty value of a definition counts as absent, and what reading makes of the others is not empty
either, with one exception: a picture property that is a dollar sign alone refers to a script whose
name is empty. Only there does a record have an empty value, the table a script without a name, and
the written table an empty value for a property that is present.
-/

namespace Interlude

namespace Mapinfo

variable {b : Block} {key : Key} {following : Option String} {pic : String}

/-! ### Values of definitions -/

/-- No property of a definition is present and empty. -/
theorem Block.property?_ne_empty (b : Block) (key : Key) : b.property? key ≠ some "" :=
  fun h => of_decide_eq_true (Option.filter_eq_some_iff.mp h).2 rfl

/-- The script that a picture property refers to has no name exactly if the property is a dollar
sign. -/
theorem scriptOf?_eq_some_empty_iff : scriptOf? pic = some "" ↔ pic = "$" := by
  constructor
  · intro h
    exact String.toList_inj.mp (scriptOf?_eq_some_iff.mp h)
  · rintro rfl
    rfl

/-- The picture that a picture property names itself is the whole property. -/
theorem eq_of_literalOf? {v : String} (h : literalOf? pic = some v) : pic = v := by
  unfold literalOf? at h
  split at h
  · contradiction
  · exact Option.some.inj h

/-- The end picture that a next map names has a name. -/
theorem endPicture?_ne_empty (next : String) : endPicture? next ≠ some "" := by
  intro h
  unfold endPicture? at h
  dsimp only at h
  split at h
  · split at h
    · split at h
      · obtain ⟨⟨_, hne, _⟩, hv⟩ := Option.ite_none_right_eq_some.mp h
        exact hne (String.ofList_eq_empty_iff.mp (Option.some.inj hv))
      · contradiction
    · contradiction
  · contradiction

/-! ### Values of records -/

/-- No value of a record is present and empty, but for the name of a script that the definition
writes as a dollar sign alone. -/
structure Block.EmptyAtDollar (b : Block) (m : MapRecord) : Prop where
  ne_empty : ∀ value ∈ [m.levelPic, m.enterPic, m.exitPic, m.endPic, m.next, m.secretNext, m.music],
    value ≠ some ""
  enterScript_iff : m.enterScript = some "" ↔ b.property? .enterPic = some "$"
  exitScript_iff : m.exitScript = some "" ↔ b.property? .exitPic = some "$"

/-- The name of the script that a property refers to is empty exactly if the property is a dollar
sign. -/
theorem bind_scriptOf?_eq_some_empty_iff {value : Option String} :
    value.bind scriptOf? = some "" ↔ value = some "$" := by
  rw [Option.bind_eq_some_iff]
  simp only [scriptOf?_eq_some_empty_iff, exists_eq_right]

/-- A property that is not empty names no empty picture. -/
theorem bind_literalOf?_ne_empty {value : Option String} (h : value ≠ some "") :
    value.bind literalOf? ≠ some "" := by
  intro hempty
  obtain ⟨pic, hpic, hliteral⟩ := Option.bind_eq_some_iff.mp hempty
  rw [eq_of_literalOf? hliteral] at hpic
  exact h hpic

/-- The record of a definition has an empty value at most where the definition has a dollar sign. -/
theorem Block.emptyAtDollar_record (b : Block) (n : ℕ) (following : Option String) :
    b.EmptyAtDollar (b.record n following) where
  ne_empty := by
    have hgiven := fun key => b.property?_ne_empty key
    have hendPic : (b.record n following).endPic ≠ some "" := by
      intro h
      obtain ⟨next, _, hpic⟩ :=
        Option.bind_eq_some_iff.mp ((Exits.endPic_ofProperties _ _).symm.trans h)
      exact endPicture?_ne_empty next hpic
    have hnext : (b.record n following).next ≠ some "" :=
      fun h => hgiven .next (Exits.next_ofProperties_eq_some_iff.mp h).1
    have hsecret : (b.record n following).secretNext ≠ some "" :=
      fun h => hgiven .secretNext (Exits.secretNext_ofProperties_eq_some_iff.mp h).1
    simp only [List.forall_mem_cons, List.not_mem_nil, false_implies, implies_true, and_true]
    exact ⟨hgiven .titlePatch, bind_literalOf?_ne_empty (hgiven .enterPic),
      bind_literalOf?_ne_empty (hgiven .exitPic), hendPic, hnext, hsecret, hgiven .music⟩
  enterScript_iff := bind_scriptOf?_eq_some_empty_iff
  exitScript_iff := bind_scriptOf?_eq_some_empty_iff

end Mapinfo

/-! ### What is written for absent values -/

namespace Umapinfo

variable {m : MapRecord}

/-- The properties that the written block of a map may show, each with its name. -/
def fields (m : MapRecord) : List (String × Option String) :=
  [("endpic", m.endPic), ("next", m.next), ("nextsecret", m.secretNext), ("music", m.music),
    ("levelpic", m.levelPic), ("enteranim", m.enterScript), ("exitanim", m.exitScript)]

/-- The line of a property tells its name and its value. -/
theorem eq_of_lineOf_eq {p q : String × String} (hp : IsName p.1) (hq : IsName q.1)
    (h : lineOf p = lineOf q) : p = q := by
  have hcut : ∀ {r : String × String}, IsName r.1 → Text.cutAt ' ' ((lineOf r).drop 2) =
      some (r.1.toList, ['=', ' ', '"'] ++ r.2.toList ++ ['"']) := by
    intro r hr
    have hspace : ' ' ∉ r.1.toList :=
      fun hmem => absurd (List.all_eq_true.mp hr.2.1 _ hmem) (by decide)
    rw [← Text.cutAt_append hspace]
    simp [lineOf]
  have hlines := congrArg (fun line => Text.cutAt ' ' (line.drop 2)) h
  have heq := (hcut hp).symm.trans (hlines.trans (hcut hq))
  obtain ⟨hname, hvalue⟩ := Prod.mk.inj (Option.some.inj heq)
  have hvalue := List.append_cancel_left (List.append_cancel_right hvalue)
  exact Prod.ext (String.toList_inj.mp hname) (String.toList_inj.mp hvalue)

/-- The lines of the block of a map. -/
theorem lines_block (hm : IsPlain m) : Text.lines (block m).toList = blockLines m := by
  have hlines := lines_block_append hm []
  rwa [List.append_nil, show Text.lines [] = [] from rfl, List.append_nil] at hlines

/-- A property stands in a block under its name with its value, or with an empty one if it is
absent. -/
theorem eq_of_mem_written {p : String × Option String} {v : String} (hp : p ∈ fields m)
    (hv : (p.1, v) ∈ written m) : p.2 = some v ∨ p.2 = none ∧ v = "" := by
  have hfilled : ∀ value : Option String, v = value.getD "" → value = some v ∨ value = none ∧ v = "" := by
    rintro (_ | value) rfl
    · exact Or.inr ⟨rfl, rfl⟩
    · exact Or.inl rfl
  simp only [fields, List.mem_cons, List.not_mem_nil, or_false] at hp
  rcases hp with rfl | rfl | rfl | rfl | rfl | rfl | rfl <;> simp [written] at hv
  · exact Or.inl hv
  · exact Or.inl hv
  · exact Or.inl hv
  · exact Or.inl hv
  · exact hfilled _ hv
  · exact hfilled _ hv
  · exact hfilled _ hv

/-- An empty value in the block of a map stands for a property that is absent or empty. -/
theorem empty_of_mem_lines_block (hm : IsPlain m) {p : String × Option String} (hp : p ∈ fields m)
    (h : lineOf (p.1, "") ∈ Text.lines (block m).toList) : p.2 = none ∨ p.2 = some "" := by
  have hname : IsName p.1 := by
    simp only [fields, List.mem_cons, List.not_mem_nil, or_false] at hp
    apply isName_of_mem
    rcases hp with rfl | rfl | rfl | rfl | rfl | rfl | rfl <;> simp
  rw [lines_block hm] at h
  simp only [blockLines, List.mem_cons, List.mem_append, List.mem_map, List.not_mem_nil,
    or_false] at h
  rcases h with hhead | hbrace | ⟨q, hq, heq⟩ | hbrace
  · simp [lineOf] at hhead
  · simp [lineOf] at hbrace
  · obtain rfl := eq_of_lineOf_eq (isName_of_mem_written hq) hname heq
    rcases eq_of_mem_written hp hq with hvalue | ⟨hvalue, _⟩
    · exact Or.inr hvalue
    · exact Or.inl hvalue
  · simp [lineOf] at hbrace

end Umapinfo

namespace MapTable

variable {t : MapTable} {name : String}

/-- The scripts of a table are those of its maps. -/
theorem mem_scripts_iff :
    name ∈ t.scripts ↔ ∃ m ∈ t.maps, m.enterScript = some name ∨ m.exitScript = some name := by
  rw [scripts, List.mem_mergeSort, List.mem_eraseDups, List.mem_flatMap]
  simp only [List.mem_filterMap, id_eq, List.mem_cons, List.not_mem_nil, or_false, exists_eq_right,
    eq_comm]

/-- The records of definitions have an empty value at most where these have a dollar sign. -/
theorem forall₂_emptyAtDollar_records (ordinal : ℕ) (blocks : List Mapinfo.Block) :
    List.Forall₂ Mapinfo.Block.EmptyAtDollar blocks (Mapinfo.records ordinal blocks) := by
  refine (Mapinfo.forall₂_isRecord_records ordinal blocks).imp ?_
  rintro b m ⟨following, hm⟩
  rw [hm]
  exact b.emptyAtDollar_record _ following

/-- A script without a name is listed exactly if a definition has a dollar sign alone. -/
theorem empty_mem_scripts_iff {blocks : List Mapinfo.Block}
    (h : List.Forall₂ Mapinfo.Block.EmptyAtDollar blocks t.maps) :
    "" ∈ t.scripts ↔
      ∃ b ∈ blocks, b.property? .enterPic = some "$" ∨ b.property? .exitPic = some "$" := by
  rw [mem_scripts_iff]
  generalize t.maps = maps at h
  induction h with
  | nil => simp
  | cons hb _ ih =>
    rw [List.exists_mem_cons_iff, List.exists_mem_cons_iff, ih, hb.enterScript_iff,
      hb.exitScript_iff]

/-- An empty value in the block of a map stands for a property that is absent, or for the name of
a script that the definition writes as a dollar sign alone. -/
theorem eq_of_mem_lines_block {b : Mapinfo.Block} {m : MapRecord} (hm : Umapinfo.IsPlain m)
    (h : b.EmptyAtDollar m) {p : String × Option String} (hp : p ∈ Umapinfo.fields m)
    (hline : Umapinfo.lineOf (p.1, "") ∈ Text.lines (Umapinfo.block m).toList) :
    p.2 = none ∨ p = ("enteranim", some "") ∨ p = ("exitanim", some "") := by
  refine (Umapinfo.empty_of_mem_lines_block hm hp hline).imp_right fun hempty => ?_
  have hne := h.ne_empty
  simp only [List.forall_mem_cons, List.not_mem_nil, false_implies, implies_true, and_true] at hne
  obtain ⟨hlevelPic, _, _, hendPic, hnext, hsecretNext, hmusic⟩ := hne
  simp only [Umapinfo.fields, List.mem_cons, List.not_mem_nil, or_false] at hp
  rcases hp with rfl | rfl | rfl | rfl | rfl | rfl | rfl
  · exact absurd hempty hendPic
  · exact absurd hempty hnext
  · exact absurd hempty hsecretNext
  · exact absurd hempty hmusic
  · exact absurd hempty hlevelPic
  · exact Or.inl (Prod.ext rfl hempty)
  · exact Or.inr (Prod.ext rfl hempty)

/-- The table of a text, in either order, has an empty value for a property that is present only
where a definition writes the name of a script as a dollar sign alone. Else no script without a name
is listed, and an empty value is written only for a property that is absent. -/
theorem ofText_empty_at_dollar (text : String) (order : OrdinalOrder) :
    List.Forall₂ Mapinfo.Block.EmptyAtDollar
        (Mapinfo.arrange order (Mapinfo.scan text.toList).blocks) (ofText text order).maps ∧
      ("" ∈ (ofText text order).scripts ↔ ∃ b ∈ (Mapinfo.scan text.toList).blocks,
        b.property? .enterPic = some "$" ∨ b.property? .exitPic = some "$") ∧
      Umapinfo.render (ofText text order) =
        "\n".intercalate ((ofText text order).maps.map Umapinfo.block) ∧
      ∀ m ∈ (ofText text order).maps, ∀ p ∈ Umapinfo.fields m,
        Umapinfo.lineOf (p.1, "") ∈ Text.lines (Umapinfo.block m).toList →
          p.2 = none ∨ p = ("enteranim", some "") ∨ p = ("exitanim", some "") := by
  have hrecords : List.Forall₂ Mapinfo.Block.EmptyAtDollar
      (Mapinfo.arrange order (Mapinfo.scan text.toList).blocks) (ofText text order).maps :=
    forall₂_emptyAtDollar_records 1 _
  refine ⟨hrecords, ?_, Umapinfo.render_eq_of_numbered (numbered_ofText text order), ?_⟩
  · rw [empty_mem_scripts_iff hrecords]
    simp only [Mapinfo.mem_arrange]
  · intro m hm p hp hline
    obtain ⟨b, hb, i, following, rfl⟩ := Umapinfo.exists_definition_of_mem_ofText hm
    have hplain := Mapinfo.isPlain_of_mem_scan text.toList b hb
    exact eq_of_mem_lines_block (Umapinfo.isPlain_record hplain i following)
      (b.emptyAtDollar_record i following) hp hline

/-- A dollar sign alone makes a script without a name, which is listed and written. -/
theorem script_without_name :
    let t := ofText "map MAP01 \x7b\nenterpic = \"$\"\n\x7d" .declaration
    (∃ m ∈ t.maps, m.enterScript = some "" ∧
        Umapinfo.lineOf ("enteranim", "") ∈ Text.lines (Umapinfo.block m).toList) ∧
      "" ∈ t.scripts := by
  decide +kernel

end MapTable

end Interlude
