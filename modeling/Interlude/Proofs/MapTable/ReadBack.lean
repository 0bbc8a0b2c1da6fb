import Mathlib
import Interlude.MapTable.Umapinfo
import Interlude.Proofs.MapTable.Declarations
import Interlude.Proofs.MapTable.Scanning

/-!
# Reading back the written map table

A value that is read from a definition stands on one line and closes no block, so it can be written
between quotes without any escape, even if it holds quotes itself. Hence the text of a table reads
as one definition for each map, with its token and the two properties that have the same name in
both forms. The next map of a record is never one that reading drops, so it is read again as it is.
-/

namespace Interlude

open Text (isWordChar isBlank)

/-- A value that can stand between quotes in the block of a map. -/
def FitsQuotes (value : String) : Prop :=
  '\n' ∉ value.toList ∧ '}' ∉ value.toList

instance (value : String) : Decidable (FitsQuotes value) :=
  inferInstanceAs (Decidable (_ ∧ _))

namespace Mapinfo

variable {s token rest line body value : List Char} {b : Block} {m : MapRecord} {n : Nat}
  {following : Option String}

/-! ### What definitions hold -/

/-- A word that is short enough for a map. -/
def IsToken (token : String) : Prop :=
  token.toList ≠ [] ∧ token.toList.length ≤ maxToken ∧ ∀ c ∈ token.toList, isWordChar c = true

/-- A definition that can be written: its token is a word, and its values fit between quotes. -/
structure Block.IsPlain (b : Block) : Prop where
  isToken : IsToken b.token
  fits : ∀ p ∈ b.properties, FitsQuotes p.2

/-- What the first line of a definition names is a token. -/
theorem isToken_of_header? (h : header? s = some (token, rest)) : IsToken (String.ofList token) := by
  unfold header? at h
  split at h
  · simp only [Option.ite_none_right_eq_some, Bool.and_eq_true, decide_eq_true_eq] at h
    obtain ⟨⟨⟨_, hpos⟩, hle⟩, h⟩ := h
    obtain ⟨rfl, _⟩ := Prod.mk.inj (Option.some.inj h)
    rw [IsToken, String.toList_ofList]
    exact ⟨List.length_pos_iff.mp hpos, hle, fun c hc => List.mem_takeWhile_imp hc⟩
  · contradiction

/-- Taking off quotes adds nothing. -/
theorem unquote_subset (value : List Char) : unquote value ⊆ value := by
  unfold unquote
  split
  · split
    · exact List.subset_cons_of_subset _ (List.dropLast_subset _)
    · exact List.Subset.refl _
  · exact List.Subset.refl _

/-- A value has only characters of its line. -/
theorem subset_of_property? {p : Key × String} (h : property? line = some p) : p.2.toList ⊆ line := by
  obtain ⟨⟨before, after⟩, hcut, h⟩ := Option.bind_eq_some_iff.mp h
  dsimp only at h
  split at h
  · contradiction
  · obtain ⟨key, _, h⟩ := Option.bind_eq_some_iff.mp h
    obtain rfl := Option.some.inj h
    have hafter : after ⊆ line := by
      rw [Text.eq_append_of_cutAt hcut]
      exact List.subset_append_of_subset_right _ (List.subset_cons_self _ _)
    rw [String.toList_ofList]
    exact List.Subset.trans (unquote_subset _) (List.Subset.trans (Text.trim_subset after) hafter)

/-- The values of a block fit between quotes if no brace closes the block earlier. -/
theorem fitsQuotes_of_mem_properties (hbody : '}' ∉ body) {p : Key × String}
    (h : p ∈ properties body) : FitsQuotes p.2 := by
  obtain ⟨line, hline, hp⟩ := List.mem_filterMap.mp h
  have hvalue := subset_of_property? hp
  refine ⟨fun hmem => ?_, fun hmem => ?_⟩
  · exact Text.newline_not_mem_of_mem_lines hline (hvalue hmem)
  · exact hbody (Text.subset_of_mem_lines hline (hvalue hmem))

/-- Every definition of a text can be written. -/
theorem isPlain_of_mem_scan (s : List Char) : ∀ b ∈ (scan s).blocks, b.IsPlain := by
  fun_induction scan s with
  | case1 => exact fun b hb => absurd hb List.not_mem_nil
  | case2 s _ _ ih => exact ih
  | case3 => exact fun b hb => absurd hb List.not_mem_nil
  | case4 s _ token rest hheader _ before inner _ hclose =>
    intro b hb
    obtain rfl := List.mem_singleton.mp hb
    refine ⟨isToken_of_header? hheader, fun p hp => fitsQuotes_of_mem_properties ?_ hp⟩
    exact Text.not_mem_of_cutAt_eq_none hclose
  | case5 s _ token rest hheader _ before inner _ body after hclose following ih =>
    intro b hb
    rcases List.mem_cons.mp hb with rfl | hb
    · refine ⟨isToken_of_header? hheader, fun p hp => fitsQuotes_of_mem_properties ?_ hp⟩
      exact Text.not_mem_of_cutAt hclose
    · exact ih b hb

/-- The value of a property is one that the definition gives. -/
theorem Block.mem_of_property? {key : Key} {v : String} (h : b.property? key = some v) :
    (key, v) ∈ b.properties := by
  have hlookup := (Option.filter_eq_some_iff.mp h).1
  obtain ⟨before, after, hproperties, _⟩ := List.lookup_eq_some_iff.mp hlookup
  have hmem : (key, v) ∈ b.properties.reverse := by simp [hproperties]
  exact List.mem_reverse.mp hmem

/-- The value of a property fits between quotes and is not empty. -/
theorem Block.IsPlain.of_property? (hb : b.IsPlain) {key : Key} {v : String}
    (h : b.property? key = some v) : FitsQuotes v ∧ v ≠ "" :=
  ⟨hb.fits (key, v) (Block.mem_of_property? h),
    of_decide_eq_true (Option.filter_eq_some_iff.mp h).2⟩

/-! ### What reading makes of the exits -/

/-- A next map is kept if its name is no other exit and does not name the map that follows. -/
theorem Exits.next_ofProperties_eq_some_iff {next secretNext : Option String} {v : String} :
    (Exits.ofProperties next secretNext following).next = some v ↔
      next = some v ∧ endPicture? v = none ∧ isEndGame v = false ∧
        following.all (fun f => !Text.sameName f v) = true := by
  unfold Exits.ofProperties
  cases next with
  | none => simp [explicitNext]
  | some n =>
    rw [Option.bind_some]
    cases hpic : endPicture? n with
    | some pic =>
      simp only [Option.some.injEq, reduceCtorEq, false_iff, not_and]
      rintro rfl hnone
      rw [hpic] at hnone
      contradiction
    | none =>
      rw [Option.any_some]
      cases hend : isEndGame n with
      | true =>
        simp only [if_true, reduceCtorEq, Option.some.injEq, false_iff, not_and]
        rintro rfl _ hfalse
        rw [hend] at hfalse
        contradiction
      | false =>
        simp only [Bool.false_eq_true, if_false, explicitNext, Option.filter_eq_some_iff,
          Option.some.injEq]
        constructor
        · rintro ⟨rfl, hfollowing⟩
          exact ⟨rfl, hpic, hend, hfollowing⟩
        · rintro ⟨rfl, _, _, hfollowing⟩
          exact ⟨rfl, hfollowing⟩

/-- A next map that is kept is kept again where the same map follows. -/
theorem Exits.next_ofProperties_next (next secretNext : Option String) :
    (Exits.ofProperties (Exits.ofProperties next secretNext following).next none following).next =
      (Exits.ofProperties next secretNext following).next := by
  ext v
  rw [Exits.next_ofProperties_eq_some_iff, Exits.next_ofProperties_eq_some_iff]
  tauto

/-- The end picture is the one that the next map names in its stead. -/
theorem Exits.endPic_ofProperties (next secretNext : Option String) :
    (Exits.ofProperties next secretNext following).endPic = next.bind endPicture? := by
  unfold Exits.ofProperties
  cases next.bind endPicture? with
  | some pic => rfl
  | none =>
    dsimp only
    split <;> rfl

/-- A secret exit is kept if the next map is no other exit and another map. -/
theorem Exits.secretNext_ofProperties_eq_some_iff {next secretNext : Option String} {v : String} :
    (Exits.ofProperties next secretNext following).secretNext = some v ↔
      secretNext = some v ∧ next.bind endPicture? = none ∧ next.any isEndGame = false ∧ next ≠ some v := by
  unfold Exits.ofProperties
  cases next.bind endPicture? with
  | some pic => simp
  | none =>
    dsimp only
    split
    · rename_i hend
      simp [hend]
    · rename_i hend
      simp only [Option.filter_eq_some_iff, decide_eq_true_eq, Bool.not_eq_true] at hend ⊢
      simp [hend]

/-! ### Values that are written -/

/-- What stands before a value that is written: a picture is a script if it begins with a dollar sign. -/
def Key.sign : Key → List Char
  | .enterPic | .exitPic => ['$']
  | _ => []

/-- Whether the value of a property is kept where the map that follows has another name: a next map must be no other
exit, and beside a secret exit there must be no such exit and another next map. -/
def Block.Keeps (b : Block) (value : String) : Key → Prop
  | .next => endPicture? value = none ∧ isEndGame value = false
  | .secretNext =>
    (b.property? .next).bind endPicture? = none ∧ (b.property? .next).any isEndGame = false ∧
      b.property? .next ≠ some value
  | _ => True

/-- A picture refers to the script that is its name behind a dollar sign. -/
theorem scriptOf?_eq_some_iff {pic v : String} : scriptOf? pic = some v ↔ pic.toList = '$' :: v.toList := by
  unfold scriptOf?
  constructor
  · intro h
    split at h
    · rename_i name hname
      rw [← Option.some.inj h, hname, String.toList_ofList]
    · contradiction
  · intro h
    simp [h]

end Mapinfo

/-! ### What is written -/

namespace Umapinfo

variable {m : MapRecord}

/-- The properties that are written for a map, each with its name. -/
def written (m : MapRecord) : List (String × String) :=
  m.endPic.toList.map ("endpic", ·) ++ m.next.toList.map ("next", ·) ++
    m.secretNext.toList.map ("nextsecret", ·) ++ m.music.toList.map ("music", ·) ++
    [("levelpic", m.levelPic.getD ""), ("enteranim", m.enterScript.getD ""),
      ("exitanim", m.exitScript.getD "")]

/-- The name under which a property is written. -/
def writtenName : Mapinfo.Key → String
  | .titlePatch => "levelpic"
  | .enterPic => "enteranim"
  | .exitPic => "exitanim"
  | .next => "next"
  | .secretNext => "nextsecret"
  | .music => "music"

/-- The line of a property without its end. -/
def lineOf (p : String × String) : List Char :=
  [' ', ' '] ++ p.1.toList ++ [' ', '=', ' ', '"'] ++ p.2.toList ++ ['"']

/-- The line of a property is its line and the end of a line. -/
theorem toList_propertyLine (key value : String) :
    (propertyLine key value).toList = lineOf (key, value) ++ ['\n'] := by
  simp [propertyLine, lineOf, ToString.toString]

/-- The lines of a property that may be absent. -/
theorem toList_optionalLine (key : String) (value : Option String) :
    (optionalLine key value).toList =
      (value.toList.map (key, ·)).flatMap fun p => lineOf p ++ ['\n'] := by
  cases value with
  | none => rfl
  | some v => simp [optionalLine, toList_propertyLine]

/-- The block of a map has a line for each property between its braces. -/
theorem toList_block (m : MapRecord) :
    (block m).toList = ['M', 'A', 'P', ' '] ++ m.token.toList ++ ['\n', '{', '\n'] ++
      (written m).flatMap (fun p => lineOf p ++ ['\n']) ++ ['}', '\n'] := by
  delta block
  simp only [toString, String.toList_append, String.reduceToList, toList_optionalLine,
    toList_propertyLine, written, List.flatMap_append, List.flatMap_cons, List.flatMap_nil,
    List.append_nil, List.append_assoc, List.cons_append, List.nil_append]

/-- A map record that can be written: its token is a word, and its values fit between quotes. -/
structure IsPlain (m : MapRecord) : Prop where
  isToken : Mapinfo.IsToken m.token
  fits : ∀ p ∈ written m, FitsQuotes p.2

/-- A word fits between quotes. -/
theorem fitsQuotes_of_word {v : String} (h : ∀ c ∈ v.toList, isWordChar c = true) : FitsQuotes v :=
  ⟨fun hmem => absurd (h _ hmem) (by decide), fun hmem => absurd (h _ hmem) (by decide)⟩

/-- The end picture that a next map names is a word. -/
theorem word_of_endPicture? {next v : String} (h : Mapinfo.endPicture? next = some v) :
    ∀ c ∈ v.toList, isWordChar c = true := by
  unfold Mapinfo.endPicture? at h
  dsimp only at h
  split at h
  · split at h
    · split at h
      · obtain ⟨⟨_, _, _, hword⟩, hv⟩ := Option.ite_none_right_eq_some.mp h
        rw [← Option.some.inj hv, String.toList_ofList]
        exact fun c hc => List.all_eq_true.mp hword c hc
      · contradiction
    · contradiction
  · contradiction

/-- A definition gives a value that is written under a name: it is that of the property which is written so, behind a
dollar sign if it is to be a script, and it is kept. -/
def IsGiven (b : Mapinfo.Block) (name value : String) : Prop :=
  ∃ key given, writtenName key = name ∧ b.property? key = some given ∧
    given.toList = key.sign ++ value.toList ∧ b.Keeps given key

/-- What is written for a definition is a word or nothing at all, or a value that the definition gives. -/
theorem mem_written_record {b : Mapinfo.Block} {n : Nat} {following : Option String}
    {p : String × String} (hp : p ∈ written (b.record n following)) :
    (∀ c ∈ p.2.toList, isWordChar c = true) ∨ IsGiven b p.1 p.2 := by
  have habsent : ∀ c ∈ "".toList, isWordChar c = true := fun c hc => absurd hc List.not_mem_nil
  simp only [written, List.mem_append, List.mem_map, Option.mem_toList, List.mem_cons,
    List.not_mem_nil, or_false] at hp
  rcases hp with (((⟨v, hv, rfl⟩ | ⟨v, hv, rfl⟩) | ⟨v, hv, rfl⟩) | ⟨v, hv, rfl⟩) | rfl | rfl | rfl
  · obtain ⟨next, _, hpic⟩ := Option.bind_eq_some_iff.mp
      ((Mapinfo.Exits.endPic_ofProperties _ _).symm.trans hv)
    exact Or.inl (word_of_endPicture? hpic)
  · obtain ⟨hnext, hpic, hend, -⟩ := Mapinfo.Exits.next_ofProperties_eq_some_iff.mp hv
    exact Or.inr ⟨.next, v, rfl, hnext, rfl, hpic, hend⟩
  · obtain ⟨hsecret, hkept⟩ := Mapinfo.Exits.secretNext_ofProperties_eq_some_iff.mp hv
    exact Or.inr ⟨.secretNext, v, rfl, hsecret, rfl, hkept⟩
  · exact Or.inr ⟨.music, v, rfl, hv, rfl, trivial⟩
  · cases hv : (b.record n following).levelPic with
    | none => exact Or.inl habsent
    | some v => exact Or.inr ⟨.titlePatch, v, rfl, hv, rfl, trivial⟩
  · cases hv : (b.record n following).enterScript with
    | none => exact Or.inl habsent
    | some v =>
      obtain ⟨pic, hpic, hscript⟩ := Option.bind_eq_some_iff.mp hv
      exact Or.inr ⟨.enterPic, pic, rfl, hpic, Mapinfo.scriptOf?_eq_some_iff.mp hscript, trivial⟩
  · cases hv : (b.record n following).exitScript with
    | none => exact Or.inl habsent
    | some v =>
      obtain ⟨pic, hpic, hscript⟩ := Option.bind_eq_some_iff.mp hv
      exact Or.inr ⟨.exitPic, pic, rfl, hpic, Mapinfo.scriptOf?_eq_some_iff.mp hscript, trivial⟩

/-- The record of a definition that can be written can be written. -/
theorem isPlain_record {b : Mapinfo.Block} (hb : b.IsPlain) (n : Nat) (following : Option String) :
    IsPlain (b.record n following) where
  isToken := hb.isToken
  fits := by
    intro p hp
    rcases mem_written_record hp with hword | ⟨key, given, -, hgiven, heq, -⟩
    · exact fitsQuotes_of_word hword
    · obtain ⟨hnewline, hbrace⟩ := (hb.of_property? hgiven).1
      rw [heq] at hnewline hbrace
      exact ⟨fun hmem => hnewline (List.mem_append_right _ hmem), fun hmem => hbrace (List.mem_append_right _ hmem)⟩

/-! ### Reading a block -/

/-- A name of a property is a word in lower case. -/
def IsName (name : String) : Prop :=
  name.toList ≠ [] ∧ name.toList.all isWordChar = true ∧ Text.lower name = name

/-- The names of the written properties are names. -/
theorem isName_of_mem {name : String}
    (h : name ∈ ["endpic", "next", "nextsecret", "music", "levelpic", "enteranim", "exitanim"]) :
    IsName name := by
  revert h name
  unfold IsName
  decide +kernel

/-- The properties are written under names. -/
theorem isName_of_mem_written {p : String × String} (h : p ∈ written m) : IsName p.1 := by
  apply isName_of_mem
  simp only [written, List.mem_append, List.mem_map, List.mem_cons, List.not_mem_nil, or_false] at h
  rcases h with (((⟨_, _, rfl⟩ | ⟨_, _, rfl⟩) | ⟨_, _, rfl⟩) | ⟨_, _, rfl⟩) | rfl | rfl | rfl <;> simp

/-- The line of a property gives its value under the name, if that matters. -/
theorem property?_lineOf {p : String × String} (h : IsName p.1) :
    Mapinfo.property? (lineOf p) = (Mapinfo.Key.ofWord? p.1).map (·, p.2) := by
  obtain ⟨hne, hall, hlower⟩ := h
  have hword : ∀ c ∈ p.1.toList, isWordChar c = true := List.all_eq_true.mp hall
  have hequals : '=' ∉ [' ', ' '] ++ p.1.toList ++ [' '] := by
    simp only [List.mem_append, not_or]
    exact ⟨⟨by decide, fun hmem => absurd (hword _ hmem) (by decide)⟩, by decide⟩
  have hcut : Text.cutAt '=' (lineOf p) =
      some ([' ', ' '] ++ p.1.toList ++ [' '], [' ', '"'] ++ p.2.toList ++ ['"']) := by
    rw [← Text.cutAt_append hequals]
    simp [lineOf]
  have hname : Text.trim ([' ', ' '] ++ p.1.toList ++ [' ']) = p.1.toList :=
    Text.trim_word hne hword (by simp [isBlank]) (by simp [isBlank])
  have hvalue : Text.trim ([' ', '"'] ++ p.2.toList ++ ['"']) = '"' :: p.2.toList ++ ['"'] := by
    have htrim : Text.trim ([' '] ++ ('"' :: p.2.toList ++ ['"']) ++ []) =
        '"' :: p.2.toList ++ ['"'] :=
      Text.trim_append (by simp [isBlank]) (by simp) ⟨'"', p.2.toList ++ ['"'], rfl, by decide⟩
        ⟨'"' :: p.2.toList, '"', rfl, by decide⟩
    simpa using htrim
  have hunquote : Mapinfo.unquote ('"' :: p.2.toList ++ ['"']) = p.2.toList := by
    simp [Mapinfo.unquote]
  simp only [Mapinfo.property?, hcut, hname, hvalue, hunquote, hall, hlower, String.ofList_toList,
    Option.bind_eq_bind, Option.bind_some, List.isEmpty_eq_false_iff.mpr hne, Bool.not_true,
    Bool.or_false, Bool.false_eq_true, if_false]
  cases Mapinfo.Key.ofWord? p.1 <;> rfl

/-- In the line of a property is nothing that is in neither its value nor a name nor the line of no
property. -/
theorem not_mem_lineOf {p : String × String} {c : Char} (hname : IsName p.1)
    (hword : isWordChar c = false) (hvalue : c ∉ p.2.toList) (hframe : c ∉ lineOf ("", "")) :
    c ∉ lineOf p := by
  have hkey : c ∉ p.1.toList := by
    intro hmem
    rw [List.all_eq_true.mp hname.2.1 c hmem] at hword
    contradiction
  simp only [lineOf, List.mem_append, not_or] at hframe ⊢
  obtain ⟨⟨⟨⟨hindent, -⟩, hopen⟩, -⟩, hclose⟩ := hframe
  exact ⟨⟨⟨⟨hindent, hkey⟩, hopen⟩, hvalue⟩, hclose⟩

/-- The line of a property is one line. -/
theorem newline_not_mem_lineOf {p : String × String} (hname : IsName p.1) (hvalue : FitsQuotes p.2) :
    '\n' ∉ lineOf p :=
  not_mem_lineOf hname (by decide) hvalue.1 (by decide)

/-- The line of a property closes no block. -/
theorem brace_not_mem_lineOf {p : String × String} (hname : IsName p.1) (hvalue : FitsQuotes p.2) :
    '}' ∉ lineOf p :=
  not_mem_lineOf hname (by decide) hvalue.2 (by decide)

/-- The lines of properties, each one ended, are these lines. -/
theorem lines_flatMap_lineOf {ps : List (String × String)}
    (hps : ∀ p ∈ ps, IsName p.1 ∧ FitsQuotes p.2) (rest : List Char) :
    Text.lines ((ps.flatMap fun p => lineOf p ++ ['\n']) ++ rest) = ps.map lineOf ++ Text.lines rest := by
  have hlines : (ps.flatMap fun p => lineOf p ++ ['\n']) = (ps.map lineOf).flatMap (· ++ ['\n']) := by
    rw [List.flatMap_map]
  rw [hlines, Text.lines_flatMap_append]
  · intro line hline
    obtain ⟨p, hp, rfl⟩ := List.mem_map.mp hline
    exact newline_not_mem_lineOf (hps p hp).1 (hps p hp).2
  · intro line hline
    obtain ⟨p, _, rfl⟩ := List.mem_map.mp hline
    exact Text.dropReturn_concat (by decide) _

/-- Reading knows two of the written properties by their names. -/
theorem filterMap_written (m : MapRecord) :
    (written m).filterMap (fun p => (Mapinfo.Key.ofWord? p.1).map (·, p.2)) =
      m.next.toList.map (Mapinfo.Key.next, ·) ++ m.music.toList.map (Mapinfo.Key.music, ·) := by
  have hpic : Mapinfo.Key.ofWord? "endpic" = none := by decide
  have hnext : Mapinfo.Key.ofWord? "next" = some .next := by decide
  have hsecret : Mapinfo.Key.ofWord? "nextsecret" = none := by decide
  have hmusic : Mapinfo.Key.ofWord? "music" = some .music := by decide
  have hlevel : Mapinfo.Key.ofWord? "levelpic" = none := by decide
  have henter : Mapinfo.Key.ofWord? "enteranim" = none := by decide
  have hexit : Mapinfo.Key.ofWord? "exitanim" = none := by decide
  simp [written, hpic, hnext, hsecret, hmusic, hlevel, henter, hexit]

/-- The definition that the block of a map reads as. -/
def definition (m : MapRecord) : Mapinfo.Block where
  token := m.token
  properties := m.next.toList.map (Mapinfo.Key.next, ·) ++ m.music.toList.map (Mapinfo.Key.music, ·)

/-- The text between the braces of a written block reads as the properties of the definition. -/
theorem properties_written (hm : IsPlain m) :
    Mapinfo.properties ('\n' :: (written m).flatMap fun p => lineOf p ++ ['\n']) =
      (definition m).properties := by
  have hlines : Text.lines ('\n' :: (written m).flatMap fun p => lineOf p ++ ['\n']) =
      Text.dropReturn [] :: Text.lines ((written m).flatMap fun p => lineOf p ++ ['\n']) :=
    Text.lines_append List.not_mem_nil _
  have hempty : Mapinfo.property? (Text.dropReturn []) = none := rfl
  have hwritten := lines_flatMap_lineOf (fun p hp => ⟨isName_of_mem_written hp, hm.fits p hp⟩) []
  rw [List.append_nil] at hwritten
  rw [Mapinfo.properties, hlines, List.filterMap_cons_none hempty, hwritten,
    show Text.lines [] = [] from rfl, List.append_nil, List.filterMap_map, definition,
    ← filterMap_written]
  exact List.filterMap_congr fun p hp => property?_lineOf (isName_of_mem_written hp)

/-! ### Reading the whole text -/

/-- The first line of a block begins the definition of its token. -/
theorem header?_block {token : String} (h : Mapinfo.IsToken token) (rest : List Char) :
    Mapinfo.header? (['M', 'A', 'P', ' '] ++ token.toList ++ '\n' :: rest) =
      some (token.toList, '\n' :: rest) := by
  obtain ⟨hne, hlength, hword⟩ := h
  obtain ⟨c, cs, htoken⟩ := List.exists_cons_of_ne_nil hne
  have hfirst : Mapinfo.isInlineBlank c = false := by
    have hc : isWordChar c = true := hword c (htoken ▸ List.mem_cons_self)
    simp [Mapinfo.isInlineBlank, Text.isBlank_of_isWordChar hc]
  have hstart : (token.toList ++ '\n' :: rest).dropWhile Mapinfo.isInlineBlank =
      token.toList ++ '\n' :: rest := by
    simp [htoken, hfirst]
  have hletter : Mapinfo.isInlineBlank 'M' = false := by decide
  have hspace : Mapinfo.isInlineBlank ' ' = true := by decide
  have hsame : Text.sameLetters ['M', 'A', 'P'] ['m', 'a', 'p'] = true := by decide
  have hend : isWordChar '\n' = false := by decide
  simp only [Mapinfo.header?, List.cons_append, List.nil_append, List.dropWhile_cons, hletter,
    hspace, Bool.false_eq_true, if_false, if_true, hstart]
  rw [List.takeWhile_append_of_pos hword, List.dropWhile_append_of_pos hword]
  have hpos : 0 < token.toList.length := List.length_pos_iff.mpr hne
  simp only [List.takeWhile_cons, List.dropWhile_cons, hend, Bool.false_eq_true, if_false,
    List.append_nil, hsame, hpos, hlength]
  simp

/-- The block of a map reads as its definition. -/
theorem scan_block (hm : IsPlain m) (rest : List Char) :
    Mapinfo.scan ((block m).toList ++ rest) =
      { Mapinfo.scan rest with blocks := definition m :: (Mapinfo.scan rest).blocks } := by
  have hbody : '}' ∉ '\n' :: (written m).flatMap fun p => lineOf p ++ ['\n'] := by
    rw [List.mem_cons, not_or, List.mem_flatMap]
    refine ⟨by decide, ?_⟩
    rintro ⟨p, hp, hmem⟩
    rcases List.mem_append.mp hmem with hmem | hmem
    · exact brace_not_mem_lineOf (isName_of_mem_written hp) (hm.fits p hp) hmem
    · exact absurd hmem (by decide)
  have hbrace : '{' ∉ ['\n'] := by decide
  have hopen := Text.cutAt_append hbrace
    ('\n' :: (written m).flatMap (fun p => lineOf p ++ ['\n']) ++ '}' :: '\n' :: rest)
  have hclose := Text.cutAt_append hbody ('\n' :: rest)
  have htext : (block m).toList ++ rest = ['M', 'A', 'P', ' '] ++ m.token.toList ++ '\n' ::
      '{' :: ('\n' :: (written m).flatMap (fun p => lineOf p ++ ['\n']) ++ '}' :: '\n' :: rest) := by
    simp [toList_block]
  have hheader := header?_block hm.isToken
    ('{' :: ('\n' :: (written m).flatMap (fun p => lineOf p ++ ['\n']) ++ '}' :: '\n' :: rest))
  rw [htext, Mapinfo.scan_of_cutAt hheader hopen hclose, Mapinfo.scan_newline,
    properties_written hm, String.ofList_toList]
  rfl

/-- The blocks of maps read as their definitions, and nothing is wrong with the text. -/
theorem scan_blocks {ms : List MapRecord} (hms : ∀ m ∈ ms, IsPlain m) :
    Mapinfo.scan ("\n".intercalate (ms.map block)).toList = ⟨ms.map definition, none⟩ := by
  induction ms with
  | nil =>
    rw [List.map_nil, String.intercalate_nil, Mapinfo.scan]
    rfl
  | cons m ms ih =>
    have hm := hms m List.mem_cons_self
    cases ms with
    | nil =>
      rw [List.map_singleton, String.intercalate_singleton, ← List.append_nil (block m).toList,
        scan_block hm, Mapinfo.scan]
      rfl
    | cons m' ms =>
      have hrest := ih fun q hq => hms q (List.mem_cons_of_mem m hq)
      have htext : ("\n".intercalate ((m :: m' :: ms).map block)).toList =
          (block m).toList ++ '\n' :: ("\n".intercalate ((m' :: ms).map block)).toList := by
        rw [List.map_cons, List.map_cons, String.intercalate_cons_cons]
        simp
      rw [htext, scan_block hm, Mapinfo.scan_newline, hrest]
      rfl

/-- The text of a numbered table is the blocks of its maps in their order. -/
theorem render_eq_of_numbered {t : MapTable} (ht : t.Numbered) :
    render t = "\n".intercalate (t.maps.map block) := by
  have hsorted : t.maps.Pairwise fun a b => decide (a.ordinal ≤ b.ordinal) = true := by
    have hrange : (t.maps.map (·.ordinal)).Pairwise (· ≤ ·) := by
      rw [ht]
      exact List.pairwise_le_range'
    simpa only [List.pairwise_map, decide_eq_true_eq] using hrange
  rw [render, List.mergeSort_of_pairwise hsorted]

/-- The text of a numbered table reads as the definitions of its maps in their order. -/
theorem scan_render {t : MapTable} (ht : t.Numbered) (hplain : ∀ m ∈ t.maps, IsPlain m) :
    Mapinfo.scan (render t).toList = ⟨t.maps.map definition, none⟩ := by
  rw [render_eq_of_numbered ht]
  exact scan_blocks hplain

/-! ### The table that is read back -/

/-- The definition of a record has the next map and the music of the record, if these are not
empty, and no secret exit. -/
theorem property?_definition (hnext : m.next ≠ some "") (hmusic : m.music ≠ some "") :
    (definition m).property? .next = m.next ∧ (definition m).property? .music = m.music ∧
      (definition m).property? .secretNext = none := by
  have hlookup : (definition m).properties.reverse.lookup .next = m.next ∧
      (definition m).properties.reverse.lookup .music = m.music ∧
      (definition m).properties.reverse.lookup .secretNext = none := by
    unfold definition
    cases m.next <;> cases m.music <;> exact ⟨rfl, rfl, rfl⟩
  have hkept : ∀ value : Option String, value ≠ some "" → value.filter (· ≠ "") = value := by
    intro value hvalue
    cases value with
    | none => rfl
    | some v => simpa using hvalue
  obtain ⟨hlookupNext, hlookupMusic, hlookupSecret⟩ := hlookup
  refine ⟨?_, ?_, ?_⟩
  · rw [Mapinfo.Block.property?, hlookupNext, hkept m.next hnext]
  · rw [Mapinfo.Block.property?, hlookupMusic, hkept m.music hmusic]
  · rw [Mapinfo.Block.property?, hlookupSecret, Option.filter_none]

/-- So it is with the record of a definition that can be written, which has no empty value. -/
theorem property?_definition_record {b : Mapinfo.Block} (hb : b.IsPlain) (n : Nat)
    (following : Option String) :
    (definition (b.record n following)).property? .next = (b.record n following).next ∧
      (definition (b.record n following)).property? .music = (b.record n following).music ∧
      (definition (b.record n following)).property? .secretNext = none := by
  have hempty : ∀ {key}, b.property? key ≠ some "" := fun h => (hb.of_property? h).2 rfl
  have hnext : (b.record n following).next ≠ some "" := fun h =>
    hempty (Mapinfo.Exits.next_ofProperties_eq_some_iff.mp h).1
  exact property?_definition hnext hempty

/-- The second record has the token, the number, the next map and the music of the first. -/
structure IsReadBack (m m' : MapRecord) : Prop where
  token_eq : m'.token = m.token
  ordinal_eq : m'.ordinal = m.ordinal
  next_eq : m'.next = m.next
  music_eq : m'.music = m.music

/-- A record is read back when its definition is read under its number. -/
theorem isReadBack_record {b : Mapinfo.Block} (hb : b.IsPlain) (n : Nat) (following : Option String) :
    IsReadBack (b.record n following) ((definition (b.record n following)).record n following) := by
  obtain ⟨hreadNext, hreadMusic, hreadSecret⟩ := property?_definition_record hb n following
  refine ⟨rfl, rfl, ?_, hreadMusic⟩
  change (Mapinfo.Exits.ofProperties ((definition _).property? .next)
    ((definition _).property? .secretNext) following).next = _
  rw [hreadNext, hreadSecret]
  exact Mapinfo.Exits.next_ofProperties_next _ _

/-- Records are read back when their definitions are read in the same order. -/
theorem forall₂_isReadBack_records {blocks : List Mapinfo.Block}
    (hblocks : ∀ b ∈ blocks, b.IsPlain) (n : Nat) :
    List.Forall₂ IsReadBack (Mapinfo.records n blocks)
      (Mapinfo.records n ((Mapinfo.records n blocks).map definition)) := by
  induction blocks generalizing n with
  | nil => exact List.Forall₂.nil
  | cons b rest ih =>
    -- The definitions that follow have the tokens of the maps that followed.
    have hfollowing : ((Mapinfo.records (n + 1) rest).map definition).head?.map (·.token) =
        rest.head?.map (·.token) := by
      cases rest <;> rfl
    rw [Mapinfo.records, List.map_cons, Mapinfo.records, hfollowing]
    exact List.Forall₂.cons (isReadBack_record (hblocks b List.mem_cons_self) n _)
      (ih (fun c hc => hblocks c (List.mem_cons_of_mem b hc)) (n + 1))

/-- The records of definitions that can be written can be written. -/
theorem isPlain_of_mem_records {blocks : List Mapinfo.Block} (hblocks : ∀ b ∈ blocks, b.IsPlain)
    {n : Nat} (hm : m ∈ Mapinfo.records n blocks) : IsPlain m := by
  induction blocks generalizing n with
  | nil => exact absurd hm List.not_mem_nil
  | cons b rest ih =>
    rcases List.mem_cons.mp hm with rfl | hm
    · exact isPlain_record (hblocks b List.mem_cons_self) n _
    · exact ih (fun c hc => hblocks c (List.mem_cons_of_mem b hc)) hm

end Umapinfo

namespace MapTable

/-- The written form of a table that was read from a text reads, in the order of the declarations,
as a table of as many maps, in which every map has the token, the number, the next map and the
music that it had. -/
theorem ofText_render_ofText (text : String) (order : OrdinalOrder) :
    let t := ofText text order
    let u := ofText (Umapinfo.render t) .declaration
    u.maps.length = t.maps.length ∧
      List.Forall₂ (fun m m' => m'.token = m.token ∧ m'.ordinal = m.ordinal ∧ m'.next = m.next ∧
        m'.music = m.music) t.maps u.maps := by
  intro t u
  have hblocks : ∀ b ∈ Mapinfo.arrange order (Mapinfo.scan text.toList).blocks, b.IsPlain := by
    intro b hb
    apply Mapinfo.isPlain_of_mem_scan text.toList
    cases order with
    | declaration => exact hb
    | sortedByToken => exact List.mem_mergeSort.mp hb
  have hplain : ∀ m ∈ t.maps, Umapinfo.IsPlain m :=
    fun m hm => Umapinfo.isPlain_of_mem_records hblocks hm
  have hmaps : u.maps = Mapinfo.records 1 (t.maps.map Umapinfo.definition) := by
    change Mapinfo.records 1 (Mapinfo.scan (Umapinfo.render t).toList).blocks = _
    rw [Umapinfo.scan_render (numbered_ofText text order) hplain]
  have hread : List.Forall₂ Umapinfo.IsReadBack t.maps u.maps := by
    rw [hmaps]
    exact Umapinfo.forall₂_isReadBack_records hblocks 1
  refine ⟨hread.length_eq.symm, hread.imp ?_⟩
  intro m m' h
  exact ⟨h.token_eq, h.ordinal_eq, h.next_eq, h.music_eq⟩

end MapTable

end Interlude
