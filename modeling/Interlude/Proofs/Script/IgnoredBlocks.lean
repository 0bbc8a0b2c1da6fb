import Mathlib
import Interlude.Proofs.Script.IdleLines

/-!
# Blocks that are ignored

The block of a line that is no directive, such as an animation with a guard that is not known, is
not skipped: its braces and its frames are read like any other lines outside of blocks. They leave no
trace all the same. A word by itself is at most the directive of spots, and such a directive finds no
brace on its next line, since there stands another word or the closing brace of the ignored block.
-/

namespace Interlude.Script

open Text (isBlank isWordChar)

variable {s : Script} {d : Directive} {line : List Char} {lines : List (List Char)} {r : Reading}

/-! ### Lines of one word -/

/-- A line with nothing on it but a word, if that. -/
def IsWordLine (line : List Char) : Prop :=
  ∃ before word after, line = before ++ word ++ after ∧ (∀ c ∈ before, isBlank c = true) ∧
    (∀ c ∈ word, isWordChar c = true) ∧ ∀ c ∈ after, isBlank c = true

/-- In upper case, a character of words is still one. -/
theorem isWordChar_toUpper {c : Char} (h : isWordChar c = true) : isWordChar c.toUpper = true := by
  by_cases hlower : c.isLower = true
  · have hupper : c.toUpper.isUpper = true := by
      rw [Char.isUpper_toUpper_eq_isAlpha, Char.isAlpha, hlower, Bool.or_true]
    simp [isWordChar, Char.isAlphanum, Char.isAlpha, hupper]
  · rwa [Char.toUpper_eq_of_not_isLower hlower]

/-- What matters of a line of one word has only characters of words. -/
theorem IsWordLine.isWordChar_of_mem_cleanLine (h : IsWordLine line) :
    ∀ c ∈ cleanLine line, isWordChar c = true := by
  obtain ⟨before, word, after, rfl, hbefore, hword, hafter⟩ := h
  have hupper : ∀ c ∈ word.map Char.toUpper, isWordChar c = true :=
    List.forall_mem_map.mpr fun c hc => isWordChar_toUpper (hword c hc)
  have hslash : '/' ∉ before ++ word.map Char.toUpper ++ after := by
    simp only [List.mem_append, not_or]
    exact ⟨⟨fun h => absurd (hbefore _ h) (by decide), fun h => absurd (hupper _ h) (by decide)⟩,
      fun h => absurd (hafter _ h) (by decide)⟩
  have hclean : cleanLine (before ++ word ++ after) =
      Text.trim (before ++ word.map Char.toUpper ++ after) := by
    have hkept := Text.beforeComment_append hslash []
    rw [List.append_nil, Text.beforeComment, List.append_nil] at hkept
    rw [cleanLine, List.map_append, List.map_append, map_toUpper_of_isBlank hbefore,
      map_toUpper_of_isBlank hafter, hkept]
  rw [hclean]
  rcases eq_or_ne word [] with rfl | hne
  · have hblank : ∀ c ∈ before ++ after, isBlank c = true :=
      List.forall_mem_append.mpr ⟨hbefore, hafter⟩
    rw [List.map_nil, List.append_nil, Text.trim, Text.trimStart,
      List.dropWhile_eq_nil_iff.mpr hblank]
    exact List.forall_mem_nil _
  · rw [Text.trim_word (by simpa using hne) hupper hbefore hafter]
    exact hupper

/-- The only directive of one word is that of spots. -/
theorem eq_spots_of_ofLine? (hline : ∀ c ∈ line, isWordChar c = true)
    (h : Directive.ofLine? line = some d) : d = .spots := by
  rcases eq_or_ne line [] with rfl | hne
  · have hnone : Directive.ofLine? [] = none := rfl
    exact absurd (hnone.symm.trans h) (Option.some_ne_none d).symm
  · rw [Directive.ofLine?,
      words_eq_singleton hne fun c hc => Text.isBlank_of_isWordChar (hline c hc)] at h
    unfold Directive.ofWords? at h
    split at h
    · simp_all
    · simp_all
    · simp_all
    · exact (Option.some.inj h).symm
    · simp [guard?, drawing?] at h

/-! ### Reading the lines of an ignored block -/

namespace Reading

/-- What has been read of a script after lines. -/
def ofLines (name : String) (lines : List (List Char)) : Reading :=
  (lines.map cleanLine).foldl next (outside (.empty name))

/-- The lines of a text are all that is read of it. -/
theorem ofText_eq_ofLines (name text : String) :
    ofText name text = ofLines name (Text.lines text.toList) := by
  rw [ofText, ofLines, cleanLines_eq_map]

/-- No block is open and none is awaited. -/
def isOutside : Reading → Bool
  | outside _ => true
  | _ => false

/-- No block is open, and if one is awaited it is one of spots. -/
def RestsAt (s : Script) (r : Reading) : Prop :=
  r = outside s ∨ r = awaiting s .spots

/-- A line other than an opening brace is read as if no block of spots were awaited. -/
theorem RestsAt.next_eq_start (h : RestsAt s r) (hline : line ≠ ['{']) :
    r.next line = start s line := by
  rcases h with rfl | rfl
  · rfl
  · rw [next, if_neg hline]
    rfl

/-- After a line of one word, still no more than a block of spots is awaited. -/
theorem RestsAt.next (h : RestsAt s r) (hline : ∀ c ∈ line, isWordChar c = true) :
    RestsAt s (r.next line) := by
  have hbrace : line ≠ ['{'] := by
    rintro rfl
    exact absurd (hline '{' List.mem_cons_self) (by decide)
  rw [h.next_eq_start hbrace, start]
  cases hd : Directive.ofLine? line with
  | none => exact Or.inl rfl
  | some d =>
    obtain rfl := eq_spots_of_ofLine? hline hd
    exact Or.inr rfl

/-- After lines of one word each, still no more than a block of spots is awaited. -/
theorem RestsAt.foldl_next (h : RestsAt s r)
    (hlines : ∀ line ∈ lines, ∀ c ∈ line, isWordChar c = true) :
    RestsAt s (lines.foldl Reading.next r) := by
  induction lines generalizing r with
  | nil => exact h
  | cons line lines ih =>
    rw [List.forall_mem_cons] at hlines
    exact ih (h.next hlines.1) hlines.2

/-- A line that is no directive, and a block of words after it, change nothing outside of blocks. -/
theorem foldl_next_ignored (hline : Directive.ofLine? line = none)
    (hlines : ∀ line ∈ lines, ∀ c ∈ line, isWordChar c = true) :
    (line :: ['{'] :: (lines ++ [['}']])).foldl next (outside s) = outside s := by
  have hfirst : (outside s).next line = outside s := by rw [next, start, hline]
  have hframes : RestsAt s (lines.foldl next (outside s)) :=
    RestsAt.foldl_next (Or.inl rfl) hlines
  calc (line :: ['{'] :: (lines ++ [['}']])).foldl next (outside s)
      = (lines ++ [['}']]).foldl next (outside s) := by
        rw [List.foldl_cons, hfirst]
        rfl
    _ = (lines.foldl next (outside s)).next ['}'] := List.foldl_concat ..
    _ = outside s := by
        rw [hframes.next_eq_start (by decide)]
        rfl

end Reading

/-- Where no block is open and none is awaited, a line that is no directive and a block of blank lines
and words after it can be left out of a text, and what follows is read the same. -/
theorem ofText_without_ignored_block (name : String) {text text' : String}
    {before frames after : List (List Char)} {line : List Char}
    (hbefore : (Reading.ofLines name before).isOutside = true)
    (hline : Directive.ofLine? (cleanLine line) = none) (hframes : ∀ frame ∈ frames, IsWordLine frame)
    (htext : Text.lines text.toList = before ++ line :: ['{'] :: (frames ++ ['}'] :: after))
    (htext' : Text.lines text'.toList = before ++ after) :
    ofText name text = ofText name text' := by
  obtain ⟨s, hs⟩ : ∃ s, Reading.ofLines name before = .outside s := by
    cases hr : Reading.ofLines name before with
    | outside s => exact ⟨s, rfl⟩
    | awaiting s d => rw [hr] at hbefore; contradiction
    | inside s d found => rw [hr] at hbefore; contradiction
  have hwords : ∀ line ∈ frames.map cleanLine, ∀ c ∈ line, isWordChar c = true :=
    List.forall_mem_map.mpr fun frame hframe => (hframes frame hframe).isWordChar_of_mem_cleanLine
  have hblock : (line :: ['{'] :: (frames ++ ['}'] :: after)).map cleanLine =
      (cleanLine line :: ['{'] :: (frames.map cleanLine ++ [['}']])) ++ after.map cleanLine := by
    have hopen : cleanLine ['{'] = ['{'] := by decide
    have hclose : cleanLine ['}'] = ['}'] := by decide
    simp only [List.map_cons, List.map_append, hopen, hclose, List.cons_append, List.append_assoc,
      List.nil_append]
  rw [Reading.ofLines] at hs
  rw [ofText_eq_script, ofText_eq_script, Reading.ofText_eq_ofLines, Reading.ofText_eq_ofLines,
    htext, htext', Reading.ofLines, Reading.ofLines, List.map_append, List.map_append,
    List.foldl_append, List.foldl_append, hs, hblock, List.foldl_append,
    Reading.foldl_next_ignored hline hwords]

/-- An animation with an unknown guard does not take a background from what follows its frames, not
even with a frame that reads as a directive right before its closing brace. -/
theorem ofText_without_unknown_guard :
    let before := ["Spots", "\x7b", "Map01 1 2", "\x7d", ""].map String.toList
    let line := "IfNotVisited Map01 Animation 1 1 5".toList
    let frames := ["  Frame1", "", "Spots"].map String.toList
    let after := ["\x7b", "Background Sky"].map String.toList
    let text := "Spots\n\x7b\nMap01 1 2\n\x7d\n\nIfNotVisited Map01 Animation 1 1 5\n\x7b\n" ++
      "  Frame1\n\nSpots\n\x7d\n\x7b\nBackground Sky"
    let text' := "Spots\n\x7b\nMap01 1 2\n\x7d\n\n\x7b\nBackground Sky\n"
    ((Reading.ofLines "INTERA" before).isOutside = true ∧
        Directive.ofLine? (cleanLine line) = none ∧ (∀ frame ∈ frames, IsWordLine frame) ∧
        Text.lines text.toList = before ++ line :: ['{'] :: (frames ++ ['}'] :: after) ∧
        Text.lines text'.toList = before ++ after) ∧
      ofText "INTERA" text = ofText "INTERA" text' := by
  intro before line frames after text text'
  have hbefore : (Reading.ofLines "INTERA" before).isOutside = true := by decide +kernel
  have hline : Directive.ofLine? (cleanLine line) = none := by decide +kernel
  have hframes : ∀ frame ∈ frames, IsWordLine frame := by
    intro frame hframe
    simp only [frames, List.map_cons, List.map_nil, List.mem_cons, List.not_mem_nil, or_false] at hframe
    rcases hframe with rfl | rfl | rfl
    · exact ⟨[' ', ' '], "Frame1".toList, [], by decide +kernel, by simp [isBlank], by simp [isWordChar],
        List.forall_mem_nil _⟩
    · exact ⟨[], [], [], rfl, List.forall_mem_nil _, List.forall_mem_nil _, List.forall_mem_nil _⟩
    · exact ⟨[], "Spots".toList, [], by decide +kernel, List.forall_mem_nil _, by simp [isWordChar],
        List.forall_mem_nil _⟩
  have htext : Text.lines text.toList = before ++ line :: ['{'] :: (frames ++ ['}'] :: after) := by
    decide +kernel
  have htext' : Text.lines text'.toList = before ++ after := by decide +kernel
  exact ⟨⟨hbefore, hline, hframes, htext, htext'⟩,
    ofText_without_ignored_block "INTERA" hbefore hline hframes htext htext'⟩

end Interlude.Script
