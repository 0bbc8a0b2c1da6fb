import Mathlib
import Interlude.Proofs.Text.Cutting
import Interlude.Proofs.Text.LetterCase

/-!
# Lines without their comments

Two slashes in a row begin a comment. What stands before a comment does not depend on what ends the
line, and a text without slashes stands before no comment.
-/

namespace Interlude.Text

variable {c : Char} {before : List Char}

/-- A character that begins no comment is kept at the end of a text unless it is in a comment. -/
theorem beforeComment_concat (hc : c ≠ '/') (s : List Char) :
    beforeComment (s ++ [c]) = beforeComment s ∨
      beforeComment (s ++ [c]) = beforeComment s ++ [c] := by
  fun_induction beforeComment s with
  | case1 rest => exact Or.inl rfl
  | case2 => exact Or.inr (by simp [beforeComment])
  | case3 d rest hcomment ih =>
    have hkept : beforeComment (d :: rest ++ [c]) = d :: beforeComment (rest ++ [c]) := by
      rw [List.cons_append, beforeComment]
      rintro tail rfl htail
      rcases rest with _ | ⟨e, rest⟩
      · exact hc (List.cons.inj htail).1
      · exact hcomment rest rfl (by rw [(List.cons.inj htail).1])
    rw [hkept]
    rcases ih with ih | ih
    · exact Or.inl (by rw [ih])
    · exact Or.inr (by rw [ih, List.cons_append])

/-- Nothing is cut off a text without slashes, whatever follows it. -/
theorem beforeComment_append (h : '/' ∉ before) (after : List Char) :
    beforeComment (before ++ after) = before ++ beforeComment after := by
  induction before with
  | nil => rfl
  | cons d before ih =>
    rw [List.mem_cons, not_or] at h
    rw [List.cons_append, beforeComment, ih h.2, List.cons_append]
    rintro tail rfl
    exact absurd rfl h.1

/-- The carriage return at the end of a line does not matter to what is left of it. -/
theorem trim_beforeComment_dropReturn (line : List Char) :
    trim (beforeComment (dropReturn line)) = trim (beforeComment line) := by
  unfold dropReturn
  split
  · rename_i hlast
    have hline := List.dropLast_append_getLast? '\r' hlast
    rw [← hline, List.dropLast_concat]
    rcases beforeComment_concat (by decide : '\r' ≠ '/') line.dropLast with h | h
    · rw [h]
    · rw [h, trim_concat (by decide)]
  · rfl

end Interlude.Text
