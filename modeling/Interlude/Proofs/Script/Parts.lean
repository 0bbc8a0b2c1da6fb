import Mathlib
import Interlude.Proofs.Script.LineByLine

/-!
# The parts of a script

The lines of a script fall into directives, each with the lines of its block, and lines that are
passed over. How they do is said here by a grammar, without a reader: a block begins with a brace on
the very next line, and it is open up to the first closing brace or else to the end. Every script
has parts in this sense, and following these one after the other gives the script.
-/

namespace Interlude.Script

/-- A directive and the lines of its block. -/
structure Part where
  directive : Directive
  body : List (List Char)
  deriving DecidableEq, Repr

/-- How lines fall into parts. -/
inductive FallsInto : List (List Char) → List Part → Prop
  | nil : FallsInto [] []
  /-- A line that is no directive is passed over. -/
  | passed {line : List Char} {lines : List (List Char)} {parts : List Part} :
      Directive.ofLine? line = none → FallsInto lines parts → FallsInto (line :: lines) parts
  /-- A directive that has no block stands for itself. -/
  | single {line : List Char} {lines : List (List Char)} {parts : List Part} {d : Directive} :
      Directive.ofLine? line = some d → d.hasBlock = false → FallsInto lines parts →
      FallsInto (line :: lines) (⟨d, []⟩ :: parts)
  | closed {line : List Char} {body lines : List (List Char)} {parts : List Part} {d : Directive} :
      Directive.ofLine? line = some d → d.hasBlock = true → ['}'] ∉ body → FallsInto lines parts →
      FallsInto (line :: ['{'] :: (body ++ ['}'] :: lines)) (⟨d, body⟩ :: parts)
  | unclosed {line : List Char} {body : List (List Char)} {d : Directive} :
      Directive.ofLine? line = some d → d.hasBlock = true → ['}'] ∉ body →
      FallsInto (line :: ['{'] :: body) [⟨d, body⟩]
  /-- Without a brace on the next line there is no block. -/
  | missing {line : List Char} {lines : List (List Char)} {parts : List Part} {d : Directive} :
      Directive.ofLine? line = some d → d.hasBlock = true → lines.head? ≠ some ['{'] →
      FallsInto lines parts → FallsInto (line :: lines) (⟨d, []⟩ :: parts)

variable {s : Script} {d : Directive} {body lines : List (List Char)} {parts : List Part}

/-- Any lines fall into parts. -/
theorem exists_fallsInto (lines : List (List Char)) : ∃ parts, FallsInto lines parts := by
  match lines with
  | [] => exact ⟨[], .nil⟩
  | line :: rest =>
    obtain ⟨parts, hparts⟩ := exists_fallsInto rest
    cases hd : Directive.ofLine? line with
    | none => exact ⟨parts, .passed hd hparts⟩
    | some d =>
      cases hblock : d.hasBlock with
      | false => exact ⟨_, .single hd hblock hparts⟩
      | true =>
        by_cases hopen : rest.head? = some ['{']
        · obtain ⟨inner, hrest⟩ := List.head?_eq_some_iff.mp hopen
          by_cases hclose : ['}'] ∈ inner
          · obtain ⟨body, after, hinner, hbody⟩ := List.eq_append_cons_of_mem hclose
            obtain ⟨parts, hparts⟩ := exists_fallsInto after
            rw [hrest, hinner]
            exact ⟨_, .closed hd hblock hbody hparts⟩
          · rw [hrest]
            exact ⟨_, .unclosed hd hblock hclose⟩
        · exact ⟨_, .missing hd hblock hopen hparts⟩
termination_by lines.length
decreasing_by
  · simp
  · simp only [hrest, hinner, List.length_cons, List.length_append]
    omega

/-- The empty lines of a block do not matter. -/
theorem followLines_filter (s : Script) (d : Directive) (body : List (List Char)) :
    followLines s d (body.filter (· ≠ [])) = followLines s d body := by
  have hkept {α : Type} {f : List Char → Option α} (hf : f [] = none) :
      (body.filter (· ≠ [])).filterMap f = body.filterMap f := by
    rw [List.filterMap_filter]
    apply List.filterMap_congr
    intro line _
    by_cases hline : line = []
    · simp [hline, hf]
    · simp [hline]
  have hspots := hkept (f := spot?) rfl
  have hpatches := hkept (f := patch?) rfl
  unfold followLines follow
  simp only [List.filterMap_map, Function.comp_def, hspots, hpatches]

/-- Follows a part. -/
def followPart (s : Script) (part : Part) : Script :=
  followLines s part.directive part.body

namespace Reading

/-- In an open block, lines without a closing brace are gathered. -/
theorem foldl_next_body (s : Script) (d : Directive) (hbody : ['}'] ∉ body)
    (found : List (List Char)) :
    body.foldl next (inside s d found) = inside s d (found ++ body.filter (· ≠ [])) := by
  induction body generalizing found with
  | nil => simp
  | cons line body ih =>
    rw [List.mem_cons, not_or] at hbody
    rw [List.foldl_cons, next, if_neg (Ne.symm hbody.1), ih hbody.2]
    by_cases hempty : line = []
    · simp [hempty]
    · simp [hempty]

/-- A line that is a directive with a block leaves the block awaited. -/
theorem start_of_hasBlock {line : List Char} (hd : Directive.ofLine? line = some d)
    (hblock : d.hasBlock = true) : start s line = awaiting s d := by
  rw [start, hd]
  exact if_pos hblock

/-- The lines of a block with its opening brace are read as the block. -/
theorem foldl_next_block (hbody : ['}'] ∉ body) :
    (['{'] :: body).foldl next (awaiting s d) = inside s d (body.filter (· ≠ [])) := by
  rw [List.foldl_cons, next, if_pos rfl, foldl_next_body s d hbody, List.nil_append]

/-- Reading lines gives what their parts give. -/
theorem script_foldl_next_of_fallsInto (h : FallsInto lines parts) (s : Script) :
    (lines.foldl next (outside s)).script = parts.foldl followPart s := by
  induction h generalizing s with
  | nil => rfl
  | passed hd _ ih => rw [List.foldl_cons, next, start, hd, ih]
  | single hd hblock _ ih =>
    rw [List.foldl_cons, next, start, hd, List.foldl_cons, ← ih]
    dsimp only
    rw [if_neg (by simp [hblock])]
    rfl
  | @closed line body lines parts d hd hblock hbody _ ih =>
    rw [List.foldl_cons, next, start_of_hasBlock hd hblock, ← List.cons_append, List.foldl_append,
      foldl_next_block hbody, List.foldl_cons, next, if_pos rfl, followLines_filter, ih]
    rfl
  | unclosed hd hblock hbody =>
    rw [List.foldl_cons, next, start_of_hasBlock hd hblock, foldl_next_block hbody, script,
      followLines_filter]
    rfl
  | @missing line lines parts d hd hblock hopen _ ih =>
    rw [List.foldl_cons, next, start_of_hasBlock hd hblock, List.foldl_cons, ← ih]
    cases lines with
    | nil => rfl
    | cons first lines =>
      have hbrace : first ≠ ['{'] := fun heq => hopen (by rw [heq, List.head?_cons])
      rw [List.foldl_cons, next, if_neg hbrace]
      rfl

end Reading

/-- The script of a text follows the parts of its lines. -/
theorem ofText_eq_foldl_followPart {text : String} (h : FallsInto (cleanLines text) parts)
    (name : String) : ofText name text = parts.foldl followPart (.empty name) := by
  rw [ofText_eq_script, Reading.ofText, Reading.script_foldl_next_of_fallsInto h]

end Interlude.Script
