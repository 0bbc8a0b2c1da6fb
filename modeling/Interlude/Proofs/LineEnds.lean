import Mathlib
import Interlude.Proofs.MapTable.Scanning
import Interlude.Proofs.Script.LineByLine

/-!
# Line ends with and without a carriage return

Map definitions and scripts read the same whether their lines end with a line feed alone or with a
carriage return before it. In a script every line is trimmed. In map definitions the carriage return
stands behind the token of a definition or behind a value, both of which end before it, or it is
between a definition and its braces, where everything is passed over.
-/

namespace Interlude

open Text (addReturns withReturns)

namespace Mapinfo

variable {s token rest : List Char}

/-- What stands behind the token of a definition is an end of the text. -/
theorem suffix_of_header? (h : header? s = some (token, rest)) : rest <:+ s := by
  unfold header? at h
  split at h
  · rename_i m a p afterWord hblanks
    obtain ⟨_, h⟩ := Option.ite_none_right_eq_some.mp h
    obtain ⟨_, rfl⟩ := Prod.mk.inj (Option.some.inj h)
    have hword : afterWord <:+ m :: a :: p :: afterWord := ⟨[m, a, p], rfl⟩
    calc _ <:+ afterWord.dropWhile isInlineBlank := List.dropWhile_suffix _
      _ <:+ afterWord := List.dropWhile_suffix _
      _ <:+ s.dropWhile isInlineBlank := hblanks ▸ hword
      _ <:+ s := List.dropWhile_suffix _
  · contradiction

/-- The first line begins the same definition. -/
theorem header?_addReturns (s : List Char) :
    header? (addReturns s) = (header? s).map fun p => (p.1, addReturns p.2) := by
  induction s using Text.lines_induction with
  | last line hline =>
    rw [Text.addReturns_of_notMem hline]
    cases hheader : header? line with
    | none => rfl
    | some p =>
      have hrest : '\n' ∉ p.2 := fun h => hline ((suffix_of_header? hheader).subset h)
      rw [Option.map_some, Text.addReturns_of_notMem hrest]
  | ended line rest hline _ =>
    rw [Text.addReturns_line hline, header?_append_newline, header?_append_return,
      header?_append_newline]
    cases hheader : header? line with
    | none => rfl
    | some p =>
      have hrest : '\n' ∉ p.2 := fun h => hline ((suffix_of_header? hheader).subset h)
      simp only [Option.map_some, Text.addReturns_line hrest]

/-- A carriage return at the end of a line is no part of a value. -/
theorem property?_dropReturn (line : List Char) :
    property? (Text.dropReturn line) = property? line := by
  have hblank : Text.isBlank '\r' = true := by decide
  unfold Text.dropReturn
  split
  · rename_i hlast
    rw [← List.dropLast_append_getLast? '\r' hlast, List.dropLast_concat]
    cases hcut : Text.cutAt '=' line.dropLast with
    | none =>
      have hnot : '=' ∉ line.dropLast ++ ['\r'] := by
        simpa using Text.not_mem_of_cutAt_eq_none hcut
      rw [property?, property?, hcut, Text.cutAt_eq_none hnot]
    | some p =>
      simp only [property?, hcut, Text.cutAt_append_of_cutAt hcut, Option.bind_eq_bind,
        Option.bind_some, Text.trim_concat hblank]
  · rfl

/-- The properties between two braces are the same. -/
theorem properties_addReturns (body : List Char) :
    properties (addReturns body) = properties body := by
  have hfilter (ls : List (List Char)) : ls.filterMap property? = (ls.map property?).filterMap id := by
    rw [List.filterMap_map, Function.id_comp]
  rw [properties, properties, hfilter, hfilter, Text.map_lines_addReturns property?_dropReturn]

/-- The text after the first line is the same but for the carriage returns. -/
theorem afterLine_addReturns (s : List Char) : afterLine (addReturns s) = addReturns (afterLine s) := by
  have hrun {line : List Char} (hline : '\n' ∉ line) : ∀ c ∈ line, decide (c ≠ '\n') = true :=
    fun c hc => decide_eq_true fun heq => hline (heq ▸ hc)
  have hpast {line : List Char} (hline : '\n' ∉ line) (rest : List Char) :
      afterLine (line ++ '\n' :: rest) = rest := by
    rw [afterLine, Text.dropWhile_append_of_stop (hrun hline) (by simp)]
    rfl
  induction s using Text.lines_induction with
  | last line hline =>
    rw [Text.addReturns_of_notMem hline, afterLine, List.dropWhile_eq_nil_iff.mpr (hrun hline)]
    rfl
  | ended line rest hline _ =>
    rw [Text.addReturns_line hline, hpast (by simp [hline]), hpast hline]

/-- The same definitions are read, and the same is wrong at the end. -/
theorem scan_addReturns (s : List Char) : scan (addReturns s) = scan s := by
  have hheader {s token behind : List Char} (h : header? s = some (token, behind)) :
      header? (addReturns s) = some (token, addReturns behind) := by
    rw [header?_addReturns, h, Option.map_some]
  have hopen (t : List Char) : Text.cutAt '{' (addReturns t) =
      (Text.cutAt '{' t).map fun p => (addReturns p.1, addReturns p.2) :=
    Text.cutAt_addReturns (by decide) (by decide) t
  have hclose (t : List Char) : Text.cutAt '}' (addReturns t) =
      (Text.cutAt '}' t).map fun p => (addReturns p.1, addReturns p.2) :=
    Text.cutAt_addReturns (by decide) (by decide) t
  fun_induction scan s with
  | case1 => rw [Text.addReturns_of_notMem List.not_mem_nil, scan, dif_pos rfl]
  | case2 s _ hnone ih =>
    have hnone' : header? (addReturns s) = none := by
      rw [header?_addReturns, hnone, Option.map_none]
    rw [scan_of_header?_eq_none hnone', afterLine_addReturns, ih]
  | case3 s _ token behind hsome name hcut =>
    simp only [scan_of_header?_eq_some (hheader hsome), hopen, hcut, Option.map_none, name]
  | case4 s _ token behind hsome name before inner hcut hcut' =>
    simp only [scan_of_header?_eq_some (hheader hsome), hopen, hcut, Option.map_some, hclose, hcut',
      Option.map_none, properties_addReturns, name]
  | case5 s _ token behind hsome name before inner hcut body after hcut' following ih =>
    simp only [scan_of_header?_eq_some (hheader hsome), hopen, hcut, Option.map_some, hclose, hcut',
      properties_addReturns, ih, name, following]

end Mapinfo

/-- What matters of the lines of a script is the same. -/
theorem Script.cleanLines_withReturns (text : String) :
    cleanLines (withReturns text) = cleanLines text := by
  rw [cleanLines_eq_map, cleanLines_eq_map, withReturns, String.toList_ofList,
    Text.map_lines_addReturns cleanLine_dropReturn]

/-- A text with a carriage return before every line feed reads as the text itself, as map definitions
in either order and as a script of any name, and the same is wrong with it. -/
theorem texts_read_alike_withReturns (name text : String) (order : OrdinalOrder) :
    (MapTable.ofText (withReturns text) order = MapTable.ofText text order ∧
        MapTable.faultOfText (withReturns text) = MapTable.faultOfText text) ∧
      Script.ofText name (withReturns text) = Script.ofText name text ∧
        Script.warningsOf (withReturns text) = Script.warningsOf text := by
  have hscan : Mapinfo.scan (withReturns text).toList = Mapinfo.scan text.toList := by
    rw [withReturns, String.toList_ofList, Mapinfo.scan_addReturns]
  have hstatements : Script.statementsOf (withReturns text) = Script.statementsOf text := by
    rw [Script.statementsOf, Script.cleanLines_withReturns, Script.statementsOf]
  refine ⟨⟨?_, ?_⟩, ?_, ?_⟩
  · rw [MapTable.ofText, hscan, MapTable.ofText]
  · rw [MapTable.faultOfText, hscan, MapTable.faultOfText]
  · rw [Script.ofText, hstatements, Script.ofText]
  · rw [Script.warningsOf, hstatements, Script.warningsOf]

end Interlude
