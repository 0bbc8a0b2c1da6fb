import Mathlib
import Interlude.Proofs.Text.Cutting
import Interlude.Proofs.Text.LetterCase

/-!
# Ends of lines

A text is one line without an end, or a line, a line feed and a text, so what holds of its lines is
shown from line to line. A carriage return before a line feed is part of the end of the line: putting
one before every line feed changes no line for a reader that takes a carriage return off its end, and
moves no other character from one side of a separator to the other.
-/

namespace Interlude.Text

variable {s line : List Char} {sep c : Char}

/-- What holds of a line without an end, and of a line before a text of which it holds, holds of
every text. -/
theorem lines_induction {motive : List Char → Prop} (last : ∀ line, '\n' ∉ line → motive line)
    (ended : ∀ line rest, '\n' ∉ line → motive rest → motive (line ++ '\n' :: rest))
    (s : List Char) : motive s := by
  by_cases h : '\n' ∈ s
  · obtain ⟨line, rest, rfl, hline⟩ := List.eq_append_cons_of_mem h
    exact ended line rest hline (lines_induction last ended rest)
  · exact last s h
termination_by s.length
decreasing_by
  subst s
  simp only [List.length_append, List.length_cons]
  omega

/-! ### Upper case -/

/-- Upper case neither makes nor takes away a carriage return at the end of a line. -/
theorem dropReturn_map_toUpper (line : List Char) :
    dropReturn (line.map Char.toUpper) = (dropReturn line).map Char.toUpper := by
  have hreturn (c : Char) : c.toUpper = '\r' ↔ c = '\r' := by
    constructor
    · intro h
      have hself : c.toUpper = c := toUpper_eq_self (by rw [h]; rfl)
      rw [← hself, h]
    · intro h
      rw [h]
      rfl
  have hlast : (line.map Char.toUpper).getLast? = some '\r' ↔ line.getLast? = some '\r' := by
    rw [List.getLast?_map, Option.map_eq_some_iff]
    simp [hreturn]
  unfold dropReturn
  by_cases h : line.getLast? = some '\r'
  · rw [if_pos (hlast.mpr h), if_pos h, List.map_dropLast]
  · rw [if_neg fun heq => h (hlast.mp heq), if_neg h]

/-- The lines of a text in upper case are its lines, each in upper case. -/
theorem lines_map_toUpper (s : List Char) :
    lines (s.map Char.toUpper) = (lines s).map (·.map Char.toUpper) := by
  have hupper {line : List Char} (hline : '\n' ∉ line) : '\n' ∉ line.map Char.toUpper :=
    fun h => hline (mem_of_mem_map_toUpper (by decide) h)
  induction s using lines_induction with
  | last line hline =>
    by_cases hempty : line = []
    · rw [hempty]
      rfl
    · rw [lines_of_not_mem hline hempty, lines_of_not_mem (hupper hline) (by simpa using hempty)]
      rfl
  | ended line rest hline ih =>
    rw [List.map_append, List.map_cons, show '\n'.toUpper = '\n' from rfl,
      lines_append (hupper hline), lines_append hline, ih, dropReturn_map_toUpper, List.map_cons]

/-! ### Carriage returns -/

/-- The text with a carriage return before every line feed. -/
def addReturns (s : List Char) : List Char :=
  s.flatMap fun c => if c = '\n' then ['\r', '\n'] else [c]

theorem addReturns_append (s rest : List Char) :
    addReturns (s ++ rest) = addReturns s ++ addReturns rest :=
  List.flatMap_append

theorem addReturns_cons (hc : c ≠ '\n') (s : List Char) :
    addReturns (c :: s) = c :: addReturns s := by
  rw [addReturns, List.flatMap_cons, if_neg hc]
  rfl

/-- A text without a line feed stays as it is. -/
theorem addReturns_of_notMem (h : '\n' ∉ line) : addReturns line = line := by
  induction line with
  | nil => rfl
  | cons c line ih =>
    rw [List.mem_cons, not_or] at h
    rw [addReturns_cons (Ne.symm h.1), ih h.2]

/-- The first line gets a carriage return at its end. -/
theorem addReturns_line (h : '\n' ∉ line) (rest : List Char) :
    addReturns (line ++ '\n' :: rest) = line ++ ['\r'] ++ '\n' :: addReturns rest := by
  rw [addReturns_append, addReturns_of_notMem h, List.append_assoc]
  rfl

/-- No other character comes or goes. -/
theorem mem_addReturns_iff (hsep : sep ≠ '\r') : sep ∈ addReturns s ↔ sep ∈ s := by
  induction s with
  | nil => rfl
  | cons c s ih =>
    rw [addReturns, List.flatMap_cons, List.mem_append, List.mem_cons]
    refine or_congr ?_ ih
    split
    · rename_i hc
      simp [hsep, hc]
    · exact List.mem_singleton

/-- At any other character a text is cut into the same two parts. -/
theorem cutAt_addReturns (hreturn : sep ≠ '\r') (hnewline : sep ≠ '\n') (s : List Char) :
    cutAt sep (addReturns s) = (cutAt sep s).map fun p => (addReturns p.1, addReturns p.2) := by
  cases hcut : cutAt sep s with
  | none =>
    have hnot := not_mem_of_cutAt_eq_none hcut
    exact cutAt_eq_none fun h => hnot ((mem_addReturns_iff hreturn).mp h)
  | some p =>
    have hnot : sep ∉ addReturns p.1 :=
      fun h => not_mem_of_cutAt hcut ((mem_addReturns_iff hreturn).mp h)
    rw [eq_append_of_cutAt hcut, addReturns_append, addReturns_cons hnewline, cutAt_append hnot]
    rfl

/-- A reader of lines to which a carriage return at the end of a line does not matter reads the same
from the lines of both texts. -/
theorem map_lines_addReturns {α : Type} {read : List Char → α}
    (hread : ∀ line, read (dropReturn line) = read line) (s : List Char) :
    (lines (addReturns s)).map read = (lines s).map read := by
  induction s using lines_induction with
  | last line hline => rw [addReturns_of_notMem hline]
  | ended line rest hline ih =>
    have hreturn : '\n' ∉ line ++ ['\r'] := by simp [hline]
    have hdrop : dropReturn (line ++ ['\r']) = line := by simp [dropReturn]
    rw [addReturns_line hline, lines_append hreturn, lines_append hline, List.map_cons,
      List.map_cons, ih, hdrop, hread]

/-- The text with a carriage return before every line feed. -/
def withReturns (text : String) : String :=
  String.ofList (addReturns text.toList)

end Interlude.Text
