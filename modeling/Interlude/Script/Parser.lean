import Interlude.Script.Directive
import Interlude.Text.Blank
import Interlude.Text.Lines

/-!
# Reading scripts

A text is cut into lines, without comments and in upper case, and the lines into statements: a
directive with the block that follows it, if it has one. Lines that are no directive are passed
over; a line of a block that is malformed is left out. So every text is a script, and what is
wrong with it is told beside it.
-/

namespace Interlude.Script

/-- What is wrong with a block as a whole. -/
inductive BlockFault where
  /-- The line, counted from 1, is not the opening brace. -/
  | missing (line : Nat)
  /-- The text ends before the closing brace. -/
  | unclosed
  deriving DecidableEq, Repr

/-- The lines of a block that are not empty, with their numbers. -/
structure Block where
  items : List (Nat × List Char)
  fault : Option BlockFault
  deriving DecidableEq, Repr

/-- A directive with its block, which is empty for one that has none. -/
structure Statement where
  directive : Directive
  block : Block
  deriving DecidableEq, Repr

/-- The lines of a text as far as they matter. -/
def cleanLines (text : String) : List (List Char) :=
  (Text.lines (text.toList.map Char.toUpper)).map fun line => Text.trim (Text.beforeComment line)

/-- The items up to the closing brace, which are at the line `number` and the next ones, and the
number of the line after the brace with the lines from there on, if there is a brace. -/
def items (number : Nat) :
    List (List Char) → List (Nat × List Char) × Option (Nat × List (List Char))
  | [] => ([], none)
  | line :: rest =>
    if line = ['}'] then ([], some (number + 1, rest))
    else
      let (following, after) := items (number + 1) rest
      (if line = [] then following else (number, line) :: following, after)

/-- The block at the line `number`, and the number of the line after it with the lines from there
on. Without an opening brace there is no block and nothing is passed over. -/
def takeBlock (number : Nat) (lines : List (List Char)) : Block × Nat × List (List Char) :=
  match lines with
  | ['{'] :: rest =>
    match items (number + 1) rest with
    | (found, some after) => (⟨found, none⟩, after)
    | (found, none) => (⟨found, some .unclosed⟩, number + 1 + rest.length, [])
  | _ => (⟨[], some (.missing number)⟩, number, lines)

theorem length_le_of_items {number n : Nat} {lines rest : List (List Char)}
    {found : List (Nat × List Char)} (h : items number lines = (found, some (n, rest))) :
    rest.length ≤ lines.length := by
  induction lines generalizing number found with
  | nil => simp [items] at h
  | cons line lines ih =>
    unfold items at h
    split at h
    · simp only [Prod.mk.injEq, Option.some.injEq] at h
      simp [← h.2.2]
    · have next : items (number + 1) lines = ((items (number + 1) lines).1, some (n, rest)) := by
        rw [Prod.ext_iff]
        simpa using (Prod.mk.inj h).2
      have := ih next
      simp only [List.length_cons]
      omega

/-- Taking a block adds no lines. -/
theorem length_takeBlock_le (number : Nat) (lines : List (List Char)) :
    (takeBlock number lines).2.2.length ≤ lines.length := by
  unfold takeBlock
  split
  · split
    · rename_i after h
      have := length_le_of_items h
      simp only [List.length_cons]
      omega
    · simp
  · simp

/-- The statements of lines, of which the first has the given number. -/
def statements (number : Nat) : List (List Char) → List Statement
  | [] => []
  | line :: rest =>
    match Directive.ofLine? line with
    | none => statements (number + 1) rest
    | some directive =>
      if directive.hasBlock then
        let after := takeBlock (number + 1) rest
        ⟨directive, after.1⟩ :: statements after.2.1 after.2.2
      else ⟨directive, ⟨[], none⟩⟩ :: statements (number + 1) rest
termination_by lines => lines.length
decreasing_by
  all_goals simp only [List.length_cons, Nat.lt_add_one]
  have := length_takeBlock_le (number + 1) rest
  omega

/-- Follows a statement. An animation without patches leaves no trace. -/
def follow (s : Script) (st : Statement) : Script :=
  match st.directive with
  | .background name => { s with background := some name }
  | .splat name => { s with splat := some name }
  | .pointer left right => { s with pointers := some (left, right) }
  | .spots =>
    { s with spots := (st.block.items.filterMap fun i => spot? i.2).foldl setSpot s.spots }
  | .picture guard x y patch =>
    { s with drawings := s.drawings ++ [⟨x, y, guard, .still, [patch]⟩] }
  | .animation guard x y tics once =>
    match st.block.items.filterMap fun i => patch? i.2 with
    | [] => s
    | patches => { s with drawings := s.drawings ++ [⟨x, y, guard, .moving tics once, patches⟩] }

/-- The statements of a text. -/
def statementsOf (text : String) : List Statement :=
  statements 1 (cleanLines text)

/-- The script of a text. -/
def ofText (name text : String) : Script :=
  (statementsOf text).foldl follow (.empty name)

/-! ### What is wrong with a text -/

/-- What is wrong with a statement. -/
inductive Warning where
  | block (fault : BlockFault)
  /-- A line of a block of spots is no spot. -/
  | notSpot (line : Nat) (item : List Char)
  /-- A line of a block of patches is no patch. -/
  | notPatch (line : Nat) (item : List Char)
  /-- An animation has no patches. -/
  | noFrames (x y : Nat)
  deriving DecidableEq, Repr

/-- The text of a warning about the script of the given name. -/
def Warning.message (name : String) : Warning → String
  | .block (.missing line) => s!"{name}: line {line}: expected '\x7b'"
  | .block .unclosed => s!"{name}: block not closed before end of script"
  | .notSpot line item =>
    s!"{name}: line {line}: expected '<map> <x> <y>', got: " ++ String.ofList item
  | .notPatch line item =>
    s!"{name}: line {line}: expected a patch name, got: " ++ String.ofList item
  | .noFrames x y => s!"{name}: animation at ({x}, {y}) has no frames"

/-- What is wrong with a statement: first the block as a whole, then its lines, then what is left
of it. -/
def Statement.warnings (st : Statement) : List Warning :=
  (st.block.fault.toList.map .block) ++
    match st.directive with
    | .spots => (st.block.items.filter fun i => (spot? i.2).isNone).map fun i => .notSpot i.1 i.2
    | .animation _ x y _ _ =>
      let bad := st.block.items.filter fun i => (patch? i.2).isNone
      bad.map (fun i => .notPatch i.1 i.2) ++
        if bad.length = st.block.items.length then [.noFrames x y] else []
    | _ => []

/-- What is wrong with a text. -/
def warningsOf (text : String) : List Warning :=
  (statementsOf text).flatMap Statement.warnings

end Interlude.Script
