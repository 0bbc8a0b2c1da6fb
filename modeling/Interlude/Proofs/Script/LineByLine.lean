import Mathlib
import Interlude.Script.Parser
import Interlude.Proofs.Text.Comments
import Interlude.Proofs.Text.LineEnds

/-!
# Reading a script line by line

A script can be read with one line known at a time: between two lines there is the script so far,
and perhaps a directive whose block is awaited or open. Cutting the lines into statements first and
following these afterwards gives the same script, so what a line does to a script depends on nothing
but where it stands: outside of blocks, where a block may begin, or inside a block.
-/

namespace Interlude.Script

variable {s : Script} {d : Directive} {line : List Char} {lines found : List (List Char)}

/-! ### The lines of a text -/

/-- A line as far as it matters. -/
def cleanLine (line : List Char) : List Char :=
  Text.trim (Text.beforeComment (line.map Char.toUpper))

/-- The carriage return at the end of a line does not matter. -/
theorem cleanLine_dropReturn (line : List Char) : cleanLine (Text.dropReturn line) = cleanLine line := by
  rw [cleanLine, ← Text.dropReturn_map_toUpper, Text.trim_beforeComment_dropReturn]
  rfl

/-- The lines of a text as far as they matter are what matters of its lines. -/
theorem cleanLines_eq_map (text : String) :
    cleanLines text = (Text.lines text.toList).map cleanLine := by
  rw [cleanLines, Text.lines_map_toUpper, List.map_map]
  rfl

/-- The first line of a text is followed by the lines of the rest. -/
theorem cleanLines_eq_cons {text rest : String} (htext : text.toList = line ++ '\n' :: rest.toList)
    (hline : '\n' ∉ line) : cleanLines text = cleanLine line :: cleanLines rest := by
  rw [cleanLines_eq_map, htext, Text.lines_append hline, List.map_cons, cleanLine_dropReturn,
    ← cleanLines_eq_map]

/-- The lines of a text that is empty or ends with a line are followed by the lines of the rest. -/
theorem cleanLines_append {before : String} (hbefore : before = "" ∨ ∃ init, before = init ++ "\n")
    (rest : String) : cleanLines (before ++ rest) = cleanLines before ++ cleanLines rest := by
  rcases hbefore with rfl | ⟨init, rfl⟩
  · rw [String.empty_append]
    rfl
  · have hnewline : "\n".toList = ['\n'] := by decide
    simp only [cleanLines_eq_map, String.toList_append, hnewline, List.append_assoc,
      List.singleton_append]
    rw [Text.lines_append_newline, List.map_append]

/-- A line with no blank on it is one word. -/
theorem words_eq_singleton (hne : line ≠ []) (h : ∀ c ∈ line, Text.isBlank c = false) :
    words line = [String.ofList line] := by
  have hwhole : line.splitOnP (fun c => c == ' ' || c == '\t') = [line] := by
    rw [List.splitOnP_eq_singleton]
    intro c hc
    rw [Bool.or_eq_false_iff, beq_eq_false_iff_ne, beq_eq_false_iff_ne]
    constructor
    · rintro rfl
      exact absurd (h _ hc) (by decide)
    · rintro rfl
      exact absurd (h _ hc) (by decide)
  rw [words, hwhole, List.filter_cons_of_pos (by simpa using hne)]
  rfl

/-! ### Reading -/

/-- Follows a directive whose block has the given lines. -/
def followLines (s : Script) (d : Directive) (found : List (List Char)) : Script :=
  follow s ⟨d, ⟨found.map (0, ·), none⟩⟩

/-- The numbers of the lines of a block, and what is wrong with it, do not matter to the script. -/
theorem follow_eq_followLines (s : Script) (st : Statement) :
    follow s st = followLines s st.directive (st.block.items.map (·.2)) := by
  simp only [follow, followLines, List.map_map, List.filterMap_map, Function.comp_def]

/-- What has been read of a script. -/
inductive Reading where
  /-- No block is open. -/
  | outside (s : Script)
  /-- The last line was a directive, the block of which begins with the next line if at all. -/
  | awaiting (s : Script) (d : Directive)
  /-- The block of a directive is open, and these lines of it are not empty. -/
  | inside (s : Script) (d : Directive) (found : List (List Char))

namespace Reading

/-- Reads a line outside of blocks. -/
def start (s : Script) (line : List Char) : Reading :=
  match Directive.ofLine? line with
  | none => outside s
  | some d => if d.hasBlock then awaiting s d else outside (followLines s d [])

/-- Reads a line. -/
def next : Reading → List Char → Reading
  | outside s, line => start s line
  | awaiting s d, line => if line = ['{'] then inside s d [] else start (followLines s d []) line
  | inside s d found, line =>
    if line = ['}'] then outside (followLines s d found)
    else inside s d (if line = [] then found else found ++ [line])

/-- The script if there are no more lines. -/
def script : Reading → Script
  | outside s => s
  | awaiting s d => followLines s d []
  | inside s d found => followLines s d found

/-- Whether the next line may begin a block. -/
def awaitsBlock : Reading → Bool
  | awaiting .. => true
  | _ => false

/-- What has been read of a script after the lines of a text. -/
def ofText (name text : String) : Reading :=
  (cleanLines text).foldl next (outside (.empty name))

/-- In an open block, lines are read up to the closing brace. -/
theorem foldl_next_inside (number : Nat) (s : Script) (d : Directive) (found : List (List Char))
    (lines : List (List Char)) :
    lines.foldl next (inside s d found) =
      match items number lines with
      | (more, none) => inside s d (found ++ more.map (·.2))
      | (more, some (_, rest)) =>
        rest.foldl next (outside (followLines s d (found ++ more.map (·.2)))) := by
  induction lines generalizing number found with
  | nil => simp [items]
  | cons line lines ih =>
    rw [List.foldl_cons, items]
    by_cases hclose : line = ['}']
    · simp [next, hclose]
    · simp only [next, if_neg hclose]
      rw [ih (number + 1)]
      rcases items (number + 1) lines with ⟨more, _ | ⟨after, rest⟩⟩
      · by_cases hempty : line = [] <;> simp [hempty]
      · by_cases hempty : line = [] <;> simp [hempty]

/-- After a directive, the lines of its block are read, if there is one, and then those after it. -/
theorem script_foldl_next_awaiting (number : Nat) (s : Script) (d : Directive)
    (lines : List (List Char)) :
    (lines.foldl next (awaiting s d)).script =
      ((takeBlock number lines).2.2.foldl next
        (outside (followLines s d ((takeBlock number lines).1.items.map (·.2))))).script := by
  unfold takeBlock
  split
  · rename_i rest
    rw [List.foldl_cons, next, if_pos rfl, foldl_next_inside (number + 1)]
    rcases items (number + 1) rest with ⟨more, _ | ⟨after, rest⟩⟩
    · rfl
    · rfl
  · rename_i hopen
    cases lines with
    | nil => rfl
    | cons line lines =>
      have hbrace : line ≠ ['{'] := fun h => hopen lines (by rw [h])
      rw [List.foldl_cons, next, if_neg hbrace]
      rfl

/-- Reading line by line gives the script of the statements. -/
theorem script_foldl_next (number : Nat) (s : Script) (lines : List (List Char)) :
    (lines.foldl next (outside s)).script = (statements number lines).foldl follow s := by
  fun_induction statements number lines generalizing s with
  | case1 => rfl
  | case2 number line rest hnone ih => rw [List.foldl_cons, next, start, hnone, ih]
  | case3 number line rest d hd hblock after ih =>
    rw [List.foldl_cons, next, start, hd]
    dsimp only
    rw [if_pos hblock, script_foldl_next_awaiting (number + 1), ih, List.foldl_cons,
      follow_eq_followLines]
  | case4 number line rest d hd hblock ih =>
    rw [List.foldl_cons, next, start, hd]
    dsimp only
    rw [if_neg hblock, ih, List.foldl_cons, follow_eq_followLines]
    rfl

end Reading

/-- The script of a text is read line by line. -/
theorem ofText_eq_script (name text : String) :
    ofText name text = (Reading.ofText name text).script :=
  (Reading.script_foldl_next 1 _ _).symm

end Interlude.Script
