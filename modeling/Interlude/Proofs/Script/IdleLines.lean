import Mathlib
import Interlude.Proofs.Script.LineByLine

/-!
# Blank lines and comments in scripts

A blank line or a comment that is put between two lines of a script changes nothing, outside of
blocks and inside them. The one place where it does is the one between a directive and the opening
brace of its block: the brace has to stand on the very next line, else the directive has no block.
-/

namespace Interlude.Script

open Text (isBlank)

variable {line : List Char} {r : Reading}

/-- An empty line, a line of blanks, or a comment, perhaps after blanks. -/
def IsIdle (line : List Char) : Prop :=
  '\n' ∉ line ∧ ∃ blanks rest, line = blanks ++ rest ∧ (∀ c ∈ blanks, isBlank c = true) ∧
    (rest = [] ∨ ∃ comment, rest = '/' :: '/' :: comment)

/-- A blank has no other form in upper case. -/
theorem toUpper_of_isBlank {c : Char} (h : isBlank c = true) : c.toUpper = c := by
  apply Char.toUpper_eq_of_not_isLower
  intro hlower
  have hword : Text.isWordChar c = true := by
    simp [Text.isWordChar, Char.isAlphanum, Char.isAlpha, hlower]
  rw [Text.isBlank_of_isWordChar hword] at h
  contradiction

/-- Blanks stay as they are in upper case. -/
theorem map_toUpper_of_isBlank {blanks : List Char} (h : ∀ c ∈ blanks, isBlank c = true) :
    blanks.map Char.toUpper = blanks :=
  (List.map_congr_left fun c hc => toUpper_of_isBlank (h c hc)).trans (List.map_id' blanks)

/-- Nothing of an idle line matters. -/
theorem cleanLine_of_isIdle (h : IsIdle line) : cleanLine line = [] := by
  obtain ⟨_, blanks, rest, rfl, hblanks, hrest⟩ := h
  have hslash : '/' ∉ blanks := fun hmem => absurd (hblanks _ hmem) (by decide)
  have hcomment : Text.beforeComment (rest.map Char.toUpper) = [] := by
    rcases hrest with rfl | ⟨comment, rfl⟩
    · rfl
    · rfl
  rw [cleanLine, List.map_append, map_toUpper_of_isBlank hblanks, Text.beforeComment_append hslash,
    hcomment, List.append_nil, Text.trim, Text.trimStart, List.dropWhile_eq_nil_iff.mpr hblanks]
  rfl

namespace Reading

/-- An empty line changes nothing that has been read unless a block may begin. -/
theorem next_nil (h : r.awaitsBlock = false) : r.next [] = r := by
  cases r with
  | outside s => rfl
  | awaiting s d => contradiction
  | inside s d found => rfl

/-- Where a block may begin, an empty line does not change the script, and no other line but an
opening brace does more after it than without it. -/
theorem script_foldl_next_nil {after : List (List Char)}
    (h : r.awaitsBlock = true → after.head? ≠ some ['{']) :
    (after.foldl next (r.next [])).script = (after.foldl next r).script := by
  cases r with
  | outside s => rw [next_nil rfl]
  | inside s d found => rw [next_nil rfl]
  | awaiting s d =>
    cases after with
    | nil => rfl
    | cons line after =>
      have hbrace : line ≠ ['{'] := fun heq => h rfl (by rw [heq, List.head?_cons])
      have hstart : (awaiting s d).next line = ((awaiting s d).next []).next line := by
        rw [next, if_neg hbrace]
        rfl
      rw [List.foldl_cons, List.foldl_cons, hstart]

end Reading

/-- A blank line or a comment that is put between two lines of a text does not change its script,
unless it parts a directive from the opening brace of its block. -/
theorem ofText_insert_idle (name : String) {before line after : String}
    (hbefore : before = "" ∨ ∃ init, before = init ++ "\n") (hline : IsIdle line.toList)
    (hopen : (Reading.ofText name before).awaitsBlock = true →
      (cleanLines after).head? ≠ some ['{']) :
    ofText name (before ++ (line ++ "\n" ++ after)) = ofText name (before ++ after) := by
  have htext : (line ++ "\n" ++ after).toList = line.toList ++ '\n' :: after.toList := by simp
  have hinserted : cleanLines (line ++ "\n" ++ after) = [] :: cleanLines after := by
    rw [cleanLines_eq_cons htext hline.1, cleanLine_of_isIdle hline]
  rw [ofText_eq_script, ofText_eq_script, Reading.ofText, Reading.ofText, cleanLines_append hbefore,
    cleanLines_append hbefore, hinserted, List.foldl_append, List.foldl_append, List.foldl_cons]
  exact Reading.script_foldl_next_nil hopen

/-- A comment inside a block is no line of it. -/
theorem ofText_insert_comment :
    let before := "SPOTS\n\x7b\nMAP01 1 2\n"
    let line := " // and the next one"
    let after := "MAP02 3 4\n\x7d"
    ((before = "" ∨ ∃ init, before = init ++ "\n") ∧ IsIdle line.toList ∧
      ((Reading.ofText "INTERA" before).awaitsBlock = true →
        (cleanLines after).head? ≠ some ['{'])) ∧
      ofText "INTERA" (before ++ (line ++ "\n" ++ after)) = ofText "INTERA" (before ++ after) := by
  intro before line after
  have hbefore : before = "" ∨ ∃ init, before = init ++ "\n" :=
    Or.inr ⟨"SPOTS\n\x7b\nMAP01 1 2", rfl⟩
  have hline : IsIdle line.toList :=
    ⟨by decide +kernel, [' '], "// and the next one".toList, by decide +kernel, by simp [isBlank],
      Or.inr ⟨" and the next one".toList, by decide +kernel⟩⟩
  have hopen : (Reading.ofText "INTERA" before).awaitsBlock = true →
      (cleanLines after).head? ≠ some ['{'] := by
    decide +kernel
  exact ⟨⟨hbefore, hline, hopen⟩, ofText_insert_idle "INTERA" hbefore hline hopen⟩

/-- A blank line before the opening brace takes the spots off a script. -/
theorem ofText_blank_before_brace :
    (ofText "INTERA" ("SPOTS\n" ++ "\x7b\nMAP01 1 2\n\x7d")).spots = [⟨"MAP01", 1, 2⟩] ∧
      IsIdle "".toList ∧
      (ofText "INTERA" ("SPOTS\n" ++ ("" ++ "\n" ++ "\x7b\nMAP01 1 2\n\x7d"))).spots = [] := by
  refine ⟨by decide +kernel, ⟨by decide, [], [], rfl, ?_, Or.inl rfl⟩, by decide +kernel⟩
  exact fun c hc => absurd hc List.not_mem_nil

end Interlude.Script
