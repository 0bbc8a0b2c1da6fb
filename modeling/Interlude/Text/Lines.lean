/-!
# Lines and separators

A line ends at a line feed, or at a carriage return directly before one. The text after the last
line feed is a line only if it is not empty.
-/

namespace Interlude.Text

/-- A line without the carriage return at its end. -/
def dropReturn (line : List Char) : List Char :=
  if line.getLast? = some '\r' then line.dropLast else line

/-- The lines of a text. -/
def lines (s : List Char) : List (List Char) :=
  let pieces := s.splitOn '\n'
  pieces.dropLast.map dropReturn ++ (pieces.getLast?.filter (· ≠ [])).toList

/-- The text before and after the first occurrence of a character. -/
def cutAt (sep : Char) (s : List Char) : Option (List Char × List Char) :=
  match s.dropWhile (· ≠ sep) with
  | [] => none
  | _ :: after => some (s.takeWhile (· ≠ sep), after)

/-- A text is what stands before the first occurrence, the character, and what stands after. -/
theorem eq_append_of_cutAt {sep : Char} {s before after : List Char}
    (h : cutAt sep s = some (before, after)) : s = before ++ sep :: after := by
  have whole := List.takeWhile_append_dropWhile (p := (· ≠ sep)) (l := s)
  unfold cutAt at h
  split at h
  · simp at h
  · rename_i c rest found
    obtain ⟨rfl, rfl⟩ : s.takeWhile (· ≠ sep) = before ∧ rest = after := by simpa using h
    have : c = sep := by
      have nonempty : s.dropWhile (· ≠ sep) ≠ [] := by rw [found]; exact List.cons_ne_nil _ _
      have := List.head_dropWhile_not (· ≠ sep) nonempty
      simpa only [found, List.head_cons, decide_eq_false_iff_not, ne_eq, Decidable.not_not]
        using this
    rw [found, this] at whole
    exact whole.symm

/-- A text up to two slashes in a row, which start a comment. -/
def beforeComment : List Char → List Char
  | '/' :: '/' :: _ => []
  | [] => []
  | c :: rest => c :: beforeComment rest

end Interlude.Text
