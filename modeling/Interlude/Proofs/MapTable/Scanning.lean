import Mathlib
import Interlude.MapTable.Mapinfo
import Interlude.Proofs.Text.Cutting
import Interlude.Proofs.Text.LetterCase

/-!
# Reading definitions one after the other

A step of reading passes over a line or reads one definition, and goes on behind it. A definition
begins on one line, so the end of a line behind a text takes nothing from the text and adds nothing
to it: unless the text breaks off within a definition, what follows the line is read on its own.
-/

namespace Interlude.Mapinfo

variable {s token rest before inner body after : List Char}

/-! ### Steps -/

/-- A line that begins no definition is passed over. -/
theorem scan_of_header?_eq_none (h : header? s = none) : scan s = scan (afterLine s) := by
  rw [scan]
  split
  · rename_i hs
    rw [hs, show afterLine [] = [] from rfl, scan, dif_pos rfl]
  · split
    · rfl
    · rename_i hsome
      rw [h] at hsome
      contradiction

/-- What is read from where a definition begins. -/
theorem scan_of_header?_eq_some (h : header? s = some (token, rest)) :
    scan s = match Text.cutAt '{' rest with
      | none => ⟨[], some (.noBlock (String.ofList token))⟩
      | some (_, inner) =>
        match Text.cutAt '}' inner with
        | none => ⟨[⟨String.ofList token, properties inner⟩], some (.unclosed (String.ofList token))⟩
        | some (body, after) =>
          { scan after with
            blocks := ⟨String.ofList token, properties body⟩ :: (scan after).blocks } := by
  have hs : s ≠ [] := by
    rintro rfl
    contradiction
  rw [scan, dif_neg hs]
  split
  · rename_i hnone
    rw [h] at hnone
    contradiction
  · rename_i hsome
    obtain ⟨rfl, rfl⟩ := Prod.mk.inj (Option.some.inj (h.symm.trans hsome))
    split
    · rename_i hopen
      rw [hopen]
    · rename_i hopen
      rw [hopen]
      dsimp only
      split
      · rename_i hclose
        rw [hclose]
      · rename_i hclose
        rw [hclose]

/-- A definition that is closed is read, and then what stands behind it. -/
theorem scan_of_cutAt (h : header? s = some (token, rest))
    (hopen : Text.cutAt '{' rest = some (before, inner))
    (hclose : Text.cutAt '}' inner = some (body, after)) :
    scan s = { scan after with
      blocks := ⟨String.ofList token, properties body⟩ :: (scan after).blocks } := by
  simp only [scan_of_header?_eq_some h, hopen, hclose]

/-! ### The end of a line -/

/-- The definition that a line begins is told by the line. -/
theorem header?_append_newline (s rest : List Char) :
    header? (s ++ '\n' :: rest) =
      (header? s).map fun p => (p.1, p.2 ++ '\n' :: rest) := by
  have hblank : isInlineBlank '\n' = false := by decide
  have hword : Text.isWordChar '\n' = false := by decide
  -- A line feed is no letter of the word, so the word does not reach past the line.
  have hletters : ∀ line : List Char, '\n' ∈ line → Text.sameLetters line ['m', 'a', 'p'] = false :=
    fun line hline => Text.sameLetters_eq_false hline (by decide)
  unfold header?
  rw [Text.dropWhile_append_cons hblank]
  rcases s.dropWhile isInlineBlank with _ | ⟨m, _ | ⟨a, _ | ⟨p, afterWord⟩⟩⟩
  · rcases rest with _ | ⟨c, _ | ⟨d, rest⟩⟩
    · rfl
    · rfl
    · simp [hletters]
  · cases rest with
    | nil => rfl
    | cons c rest => simp [hletters]
  · simp [hletters]
  · have hlength : ∀ x y : List Char,
        ((x ++ '\n' :: rest).length != (y ++ '\n' :: rest).length) = (x.length != y.length) := by
      intro x y
      rw [List.length_append, List.length_append, Bool.eq_iff_iff, bne_iff_ne, bne_iff_ne]
      omega
    simp only [List.cons_append, Text.dropWhile_append_cons hblank,
      Text.dropWhile_append_cons hword, Text.takeWhile_append_cons hword, hlength]
    split <;> rfl

/-- The carriage return at the end of a line comes after all that the line says of a definition. -/
theorem header?_append_return (line : List Char) :
    header? (line ++ ['\r']) = (header? line).map fun p => (p.1, p.2 ++ ['\r']) := by
  have hblank : isInlineBlank '\r' = true := by decide
  have hword : Text.isWordChar '\r' = false := by decide
  unfold header?
  rw [Text.dropWhile_concat hblank]
  rcases line.dropWhile isInlineBlank with _ | ⟨m, _ | ⟨a, _ | ⟨p, afterWord⟩⟩⟩
  · rfl
  · rfl
  · have hletters : Text.sameLetters [m, a, '\r'] ['m', 'a', 'p'] = false :=
      Text.sameLetters_eq_false (d := '\r') (by simp) (by decide)
    simp [hletters]
  · rw [if_neg (List.cons_ne_nil _ _)]
    simp only [List.cons_append, Text.dropWhile_concat hblank]
    by_cases htoken : afterWord.dropWhile isInlineBlank = []
    · simp [htoken]
    · have hlength : ∀ x y : List Char,
          ((x ++ ['\r']).length != (y ++ ['\r']).length) = (x.length != y.length) := by
        intro x y
        rw [List.length_append, List.length_append, Bool.eq_iff_iff, bne_iff_ne, bne_iff_ne]
        omega
      simp only [if_neg htoken, hlength, Text.takeWhile_append_cons hword,
        Text.dropWhile_append_cons hword]
      split <;> rfl

/-- The end of a line begins no definition. -/
theorem scan_newline (rest : List Char) : scan ('\n' :: rest) = scan rest :=
  scan_of_header?_eq_none (header?_append_newline [] rest)

/-- Passing over the first line, one may as well put an empty line in front of the second. -/
theorem scan_afterLine_append_newline (s rest : List Char) :
    scan (afterLine (s ++ '\n' :: rest)) = scan (afterLine s ++ '\n' :: rest) := by
  unfold afterLine
  rw [Text.dropWhile_append_cons (by decide)]
  cases s.dropWhile (· ≠ '\n') with
  | nil => exact (scan_newline rest).symm
  | cons c line => rfl

/-- A text that does not break off within a definition is read, and then what follows its last
line. -/
theorem scan_append_newline (h : (scan s).fault = none) (rest : List Char) :
    scan (s ++ '\n' :: rest) =
      { scan rest with blocks := (scan s).blocks ++ (scan rest).blocks } := by
  fun_induction scan s with
  | case1 => exact scan_newline rest
  | case2 s _ hheader ih =>
    have hheader' : header? (s ++ '\n' :: rest) = none := by
      rw [header?_append_newline, hheader, Option.map_none]
    rw [scan_of_header?_eq_none hheader', scan_afterLine_append_newline, ih h]
  | case3 => contradiction
  | case4 => contradiction
  | case5 s _ token behind hheader _ before inner hopen body after hclose following ih =>
    have hheader' : header? (s ++ '\n' :: rest) = some (token, behind ++ '\n' :: rest) := by
      rw [header?_append_newline, hheader, Option.map_some]
    rw [scan_of_cutAt hheader' (Text.cutAt_append_of_cutAt hopen _)
      (Text.cutAt_append_of_cutAt hclose _), ih h]
    rfl

end Interlude.Mapinfo
