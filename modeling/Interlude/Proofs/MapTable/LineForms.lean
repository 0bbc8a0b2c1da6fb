import Mathlib
import Interlude.Proofs.MapTable.ReadBack

/-!
# The lines of the written map table

Every line of a written table is empty, a brace, the head of a block or a property between quotes.
Writing escapes nothing, so a value between quotes holds a double quote itself where a definition
gives one with a quote that is not part of a pair around the whole value. There is no other source
of quotes: what is written is a value of a definition, a word, or nothing. And such a value is never
left out, unless it is no value of the map at all.
-/

namespace Interlude.Umapinfo

open Text (isWordChar)

variable {m : MapRecord} {line : List Char} {holds : String → String → Prop}

/-- The forms of the lines of a written table. What holds of the name and the value of a property is
left open. -/
inductive LineForm (holds : String → String → Prop) : List Char → Prop
  | empty : LineForm holds []
  | opening : LineForm holds ['{']
  | closing : LineForm holds ['}']
  | head (token : String) : Mapinfo.IsToken token →
      LineForm holds (['M', 'A', 'P', ' '] ++ token.toList)
  | property (name value : String) : IsName name → holds name value →
      LineForm holds (lineOf (name, value))

/-- The lines of the block of a map. -/
def blockLines (m : MapRecord) : List (List Char) :=
  (['M', 'A', 'P', ' '] ++ m.token.toList) :: ['{'] :: ((written m).map lineOf ++ [['}']])

/-- The block of a map is its lines, each one ended. -/
theorem toList_block_eq_flatMap (m : MapRecord) :
    (block m).toList = (blockLines m).flatMap (· ++ ['\n']) := by
  rw [toList_block]
  simp [blockLines, List.flatMap_map]

/-- The lines of a text that begins with the block of a map. -/
theorem lines_block_append (hm : IsPlain m) (rest : List Char) :
    Text.lines ((block m).toList ++ rest) = blockLines m ++ Text.lines rest := by
  have hhead : ∀ c, isWordChar c = false → c ∉ ['M', 'A', 'P', ' '] →
      c ∉ ['M', 'A', 'P', ' '] ++ m.token.toList := by
    intro c hc hnot hmem
    rcases List.mem_append.mp hmem with hmem | hmem
    · exact hnot hmem
    · exact absurd (hm.isToken.2.2 c hmem) (by simp [hc])
  have hplain : ∀ l ∈ blockLines m, '\n' ∉ l ∧ Text.dropReturn l = l := by
    intro l hl
    simp only [blockLines, List.mem_cons, List.mem_append, List.mem_map, List.not_mem_nil,
      or_false] at hl
    rcases hl with rfl | rfl | ⟨p, hp, rfl⟩ | rfl
    · exact ⟨hhead '\n' (by decide) (by decide),
        Text.dropReturn_of_not_mem (hhead '\r' (by decide) (by decide))⟩
    · decide
    · exact ⟨newline_not_mem_lineOf (isName_of_mem_written hp) (hm.fits p hp),
        Text.dropReturn_concat (by decide) _⟩
    · decide
  rw [toList_block_eq_flatMap, Text.lines_flatMap_append (fun l hl => (hplain l hl).1)
    fun l hl => (hplain l hl).2]

/-- The lines of the blocks of maps with an empty line between them are those of the blocks. -/
theorem mem_lines_intercalate_iff {ms : List MapRecord} (hms : ∀ m ∈ ms, IsPlain m) (hline : line ≠ []) :
    line ∈ Text.lines ("\n".intercalate (ms.map block)).toList ↔ ∃ m ∈ ms, line ∈ blockLines m := by
  induction ms with
  | nil =>
    refine iff_of_false List.not_mem_nil ?_
    rintro ⟨m, hm, -⟩
    exact absurd hm List.not_mem_nil
  | cons m ms ih =>
    have hm := hms m List.mem_cons_self
    cases ms with
    | nil =>
      rw [List.map_singleton, String.intercalate_singleton, ← List.append_nil (block m).toList,
        lines_block_append hm]
      simp [Text.lines]
    | cons m' ms =>
      have htext : ("\n".intercalate ((m :: m' :: ms).map block)).toList =
          (block m).toList ++ '\n' :: ("\n".intercalate ((m' :: ms).map block)).toList := by
        rw [List.map_cons, List.map_cons, String.intercalate_cons_cons]
        simp
      rw [htext, lines_block_append hm, ← List.nil_append ('\n' :: _),
        Text.lines_append List.not_mem_nil, List.mem_append, List.mem_cons,
        show Text.dropReturn [] = [] from rfl, or_iff_right hline,
        ih fun q hq => hms q (List.mem_cons_of_mem m hq)]
      simp only [List.exists_mem_cons_iff]

/-- The lines of the block of a map have the forms of lines. -/
theorem lineForm_of_mem_blockLines (hm : IsPlain m) (hholds : ∀ p ∈ written m, holds p.1 p.2)
    (h : line ∈ blockLines m) : LineForm holds line := by
  simp only [blockLines, List.mem_cons, List.mem_append, List.mem_map, List.not_mem_nil,
    or_false] at h
  rcases h with rfl | rfl | ⟨p, hp, rfl⟩ | rfl
  · exact .head m.token hm.isToken
  · exact .opening
  · exact .property p.1 p.2 (isName_of_mem_written hp) (hholds p hp)
  · exact .closing

/-- A record of numbered definitions is a record of one of them. -/
theorem exists_mem_of_mem_records {n : Nat} {blocks : List Mapinfo.Block}
    (h : m ∈ Mapinfo.records n blocks) : ∃ b ∈ blocks, ∃ i following, m = b.record i following := by
  have hrecords := Mapinfo.forall₂_isRecord_records n blocks
  obtain ⟨i, hi, rfl⟩ := List.mem_iff_getElem.mp h
  have hlt : i < blocks.length := hrecords.length_eq ▸ hi
  obtain ⟨following, heq⟩ := hrecords.get hlt hi
  exact ⟨blocks[i], List.getElem_mem hlt, _, following, heq⟩

/-- A definition has a record, in which the map that follows is that of another one. -/
theorem exists_record_of_mem {b : Mapinfo.Block} {blocks : List Mapinfo.Block} (hb : b ∈ blocks) (n : Nat) :
    ∃ i following, (∀ token, following = some token → ∃ c ∈ blocks, c.token = token) ∧
      b.record i following ∈ Mapinfo.records n blocks := by
  induction blocks generalizing n with
  | nil => exact absurd hb List.not_mem_nil
  | cons first rest ih =>
    rcases List.mem_cons.mp hb with rfl | hb
    · refine ⟨n, rest.head?.map (·.token), fun token htoken => ?_, List.mem_cons_self⟩
      obtain ⟨c, hc, rfl⟩ := Option.map_eq_some_iff.mp htoken
      exact ⟨c, List.mem_cons_of_mem b (List.mem_of_head? hc), rfl⟩
    · obtain ⟨i, following, hfollowing, hrecord⟩ := ih hb (n + 1)
      refine ⟨i, following, fun token htoken => ?_, List.mem_cons_of_mem _ hrecord⟩
      obtain ⟨c, hc, rfl⟩ := hfollowing token htoken
      exact ⟨c, List.mem_cons_of_mem first hc, rfl⟩

/-- A map of a table that was read from a text is the record of a definition of the text. -/
theorem exists_definition_of_mem_ofText {text : String} {order : OrdinalOrder}
    (h : m ∈ (MapTable.ofText text order).maps) :
    ∃ b ∈ (Mapinfo.scan text.toList).blocks, ∃ i following, m = b.record i following := by
  obtain ⟨b, hb, hrecord⟩ := exists_mem_of_mem_records h
  exact ⟨b, Mapinfo.mem_arrange.mp hb, hrecord⟩

/-- The maps of a table that was read from a text can be written. -/
theorem isPlain_of_mem_ofText {text : String} {order : OrdinalOrder}
    (h : m ∈ (MapTable.ofText text order).maps) : IsPlain m := by
  obtain ⟨b, hb, i, following, rfl⟩ := exists_definition_of_mem_ofText h
  exact isPlain_record (Mapinfo.isPlain_of_mem_scan text.toList b hb) i following

/-! ### Quotes in values -/

/-- A value with a quote is not the token of a map. -/
theorem sameName_eq_false_of_quote {token value : String} (htoken : Mapinfo.IsToken token)
    (hquote : '"' ∈ value.toList) : Text.sameName token value = false := by
  rw [Bool.eq_false_iff]
  intro hsame
  have hupper : value.toList.map Char.toUpper = token.toList.map Char.toUpper := by
    rw [← Text.toList_upper, ← Text.toList_upper, Text.upper_eq_upper_iff.mpr hsame]
  have hmem : '"' ∈ token.toList.map Char.toUpper := hupper ▸ List.mem_map.mpr ⟨'"', hquote, by decide⟩
  exact absurd (htoken.2.2 _ (Text.mem_of_mem_map_toUpper (by decide) hmem)) (by decide)

/-- A value with a quote that a definition gives is written for its record. -/
theorem mem_written_of_isGiven {b : Mapinfo.Block} {name value : String} {following : Option String}
    (hfollowing : ∀ token, following = some token → Mapinfo.IsToken token) (hquote : '"' ∈ value.toList)
    (h : IsGiven b name value) (n : Nat) : (name, value) ∈ written (b.record n following) := by
  obtain ⟨key, given, rfl, hgiven, heq, hkeeps⟩ := h
  simp only [written, List.mem_append, List.mem_map, Option.mem_toList, List.mem_cons, List.not_mem_nil, or_false]
  -- But for scripts, the value is the one that is given.
  have hsame (hsign : key.sign = []) : given = value := by
    rw [hsign, List.nil_append] at heq
    exact String.toList_inj.mp heq
  cases key with
  | next =>
    obtain rfl := hsame rfl
    have hother : following.all (fun f => !Text.sameName f given) = true := by
      cases following with
      | none => rfl
      | some token => simp [sameName_eq_false_of_quote (hfollowing token rfl) hquote]
    exact .inl (.inl (.inl (.inr ⟨given, Mapinfo.Exits.next_ofProperties_eq_some_iff.mpr
      ⟨hgiven, hkeeps.1, hkeeps.2, hother⟩, rfl⟩)))
  | secretNext =>
    obtain rfl := hsame rfl
    exact .inl (.inl (.inr ⟨given, Mapinfo.Exits.secretNext_ofProperties_eq_some_iff.mpr ⟨hgiven, hkeeps⟩, rfl⟩))
  | music =>
    obtain rfl := hsame rfl
    exact .inl (.inr ⟨given, hgiven, rfl⟩)
  | titlePatch =>
    obtain rfl := hsame rfl
    have hlevelPic : (b.record n following).levelPic = some given := hgiven
    exact .inr (.inl (by rw [hlevelPic]; rfl))
  | enterPic =>
    have hscript : (b.record n following).enterScript = some value :=
      Option.bind_eq_some_iff.mpr ⟨given, hgiven, Mapinfo.scriptOf?_eq_some_iff.mpr heq⟩
    exact .inr (.inr (.inl (by rw [hscript]; rfl)))
  | exitPic =>
    have hscript : (b.record n following).exitScript = some value :=
      Option.bind_eq_some_iff.mpr ⟨given, hgiven, Mapinfo.scriptOf?_eq_some_iff.mpr heq⟩
    exact .inr (.inr (.inr (by rw [hscript]; rfl)))

/-- Every line of the written form of a table that was read from a text is empty, a brace, the head
of a block with a token, or a property between quotes. A double quote stands in the value of a
property only if a definition gives that very value to the property which is written under the name,
for a script behind a dollar sign; and each such value is written as it stands. -/
theorem lineForm_of_mem_lines_render (text : String) (order : OrdinalOrder) :
    let lines := Text.lines (render (MapTable.ofText text order)).toList
    let blocks := (Mapinfo.scan text.toList).blocks
    (∀ line ∈ lines,
      LineForm (fun name value => '"' ∈ value.toList → ∃ b ∈ blocks, IsGiven b name value) line) ∧
    ∀ b ∈ blocks, ∀ name value, IsGiven b name value → '"' ∈ value.toList → lineOf (name, value) ∈ lines := by
  intro lines blocks
  have hplain : ∀ m ∈ (MapTable.ofText text order).maps.mergeSort fun a b => a.ordinal ≤ b.ordinal, IsPlain m :=
    fun m hm => isPlain_of_mem_ofText (List.mem_mergeSort.mp hm)
  refine ⟨fun line hline => ?_, fun b hb name value hgiven hquote => ?_⟩
  · by_cases hempty : line = []
    · exact hempty ▸ .empty
    obtain ⟨m, hm, hline⟩ := (mem_lines_intercalate_iff hplain hempty).mp hline
    obtain ⟨b, hb, i, following, rfl⟩ := exists_definition_of_mem_ofText (List.mem_mergeSort.mp hm)
    refine lineForm_of_mem_blockLines (hplain _ hm) (fun p hp hquote => ?_) hline
    rcases mem_written_record hp with hword | hgiven
    · exact absurd (hword _ hquote) (by decide)
    · exact ⟨b, hb, hgiven⟩
  · have harranged : b ∈ Mapinfo.arrange order blocks := Mapinfo.mem_arrange.mpr hb
    obtain ⟨i, following, hfollowing, hrecord⟩ := exists_record_of_mem harranged 1
    have htoken : ∀ token, following = some token → Mapinfo.IsToken token := by
      intro token hsome
      obtain ⟨c, hc, rfl⟩ := hfollowing token hsome
      exact (Mapinfo.isPlain_of_mem_scan text.toList c (Mapinfo.mem_arrange.mp hc)).isToken
    have hwritten := mem_written_of_isGiven htoken hquote hgiven i
    refine (mem_lines_intercalate_iff hplain (by simp [lineOf])).mpr
      ⟨_, List.mem_mergeSort.mpr hrecord, ?_⟩
    simp only [blockLines, List.mem_cons, List.mem_append, List.mem_map]
    exact .inr (.inr (.inl ⟨_, hwritten, rfl⟩))

/-- The name of a script with a quote in it is such a value. -/
theorem lineForm_of_quoted_script :
    let text := "map MAP01 \x7b\nenterpic = \"$IN\"A\"\n\x7d"
    let lines := Text.lines (render (MapTable.ofText text .declaration)).toList
    let blocks := (Mapinfo.scan text.toList).blocks
    let line := "  enteranim = \"IN\"A\"".toList
    line ∈ lines ∧
      LineForm (fun name value => '"' ∈ value.toList → ∃ b ∈ blocks, IsGiven b name value) line := by
  intro text lines blocks line
  obtain ⟨hform, hkept⟩ := lineForm_of_mem_lines_render text .declaration
  let b : Mapinfo.Block := ⟨"MAP01", [(.enterPic, "$IN\"A")]⟩
  have hb : b ∈ blocks := by decide +kernel
  have hgiven : IsGiven b "enteranim" "IN\"A" := ⟨.enterPic, "$IN\"A", rfl, rfl, rfl, trivial⟩
  have hline := hkept b hb _ _ hgiven (by decide)
  exact ⟨hline, hform _ hline⟩

/-- A quote in the music of a map is written between the quotes around it. -/
theorem exists_quote_in_value :
    let line := "  music = \"a\"b\"".toList
    line ∈ Text.lines
        (render (MapTable.ofText "map MAP01 \x7b\nmusic = a\"b\n\x7d" .declaration)).toList ∧
      ¬ LineForm (fun _ value => '"' ∉ value.toList) line := by
  intro line
  refine ⟨by decide +kernel, fun hform => ?_⟩
  have hread : Mapinfo.property? line = some (.music, "a\"b") := by decide +kernel
  have hfirst : line.head? = some ' ' := by decide +kernel
  generalize line = written at hform hread hfirst
  cases hform with
  | empty => exact absurd hread (by decide)
  | opening => exact absurd hread (by decide)
  | closing => exact absurd hread (by decide)
  | head token htoken => exact absurd hfirst (by simp)
  | property name value hname hquote =>
    -- The line reads as the value that it was written for.
    rw [property?_lineOf hname] at hread
    obtain ⟨key, _, heq⟩ := Option.map_eq_some_iff.mp hread
    obtain ⟨_, rfl⟩ := Prod.mk.inj heq
    exact absurd hquote (by decide)

end Interlude.Umapinfo
