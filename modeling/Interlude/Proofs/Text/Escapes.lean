import Mathlib
import Interlude.Proofs.Text.Cutting

/-!
# Escapes that set colours

In a text for a terminal an escape character and a bracket begin a list of codes, which ends at the first
letter m. Taking out these sequences leaves what a reader sees. A text without the escape character is left
as it is, and a sequence is told apart from what follows it by its end alone.
-/

namespace Interlude.Text

/-- The character with which escapes begin. -/
def escapeChar : Char := '\x1b'

/-- A sequence with codes. -/
def escapeOf (codes : List Char) : List Char :=
  escapeChar :: '[' :: (codes ++ ['m'])

/-- What follows a sequence at the start of a text. -/
def afterEscape? : List Char → Option (List Char)
  | first :: second :: rest =>
    if first = escapeChar ∧ second = '[' then (cutAt 'm' rest).map Prod.snd else none
  | _ => none

variable {c : Char} {s rest rest' codes codes' after : List Char}

/-- What follows a sequence is less than the text. -/
theorem length_lt_of_afterEscape? (h : afterEscape? s = some after) : after.length < s.length := by
  unfold afterEscape? at h
  split at h
  · split at h
    · obtain ⟨⟨before, after⟩, hcut, rfl⟩ := Option.map_eq_some_iff.mp h
      rw [eq_append_of_cutAt hcut]
      simp
      omega
    · contradiction
  · contradiction

/-- A text without its sequences. -/
def withoutEscapes (s : List Char) : List Char :=
  match s with
  | [] => []
  | c :: rest =>
    match _ : afterEscape? (c :: rest) with
    | some after => withoutEscapes after
    | none => c :: withoutEscapes rest
termination_by s.length
decreasing_by
  · exact length_lt_of_afterEscape? ‹_›
  · exact Nat.lt_succ_self _

/-- A sequence at the start of a text ends at its letter. -/
theorem afterEscape?_escapeOf (h : 'm' ∉ codes) (rest : List Char) :
    afterEscape? (escapeOf codes ++ rest) = some rest := by
  have htext : escapeOf codes ++ rest = escapeChar :: '[' :: (codes ++ 'm' :: rest) := by
    simp [escapeOf]
  rw [htext, afterEscape?, if_pos ⟨rfl, rfl⟩, cutAt_append h, Option.map_some]

/-- A sequence is taken out. -/
theorem withoutEscapes_escapeOf (h : 'm' ∉ codes) (rest : List Char) :
    withoutEscapes (escapeOf codes ++ rest) = withoutEscapes rest := by
  have hafter := afterEscape?_escapeOf h rest
  rw [escapeOf, List.cons_append] at hafter ⊢
  rw [withoutEscapes]
  split
  · rename_i after hfound
    rw [hafter] at hfound
    rw [Option.some.inj hfound]
  · rename_i hnone
    rw [hafter] at hnone
    contradiction

/-- Any other character is kept. -/
theorem withoutEscapes_cons (h : c ≠ escapeChar) (rest : List Char) :
    withoutEscapes (c :: rest) = c :: withoutEscapes rest := by
  have hnone : afterEscape? (c :: rest) = none := by
    cases rest with
    | nil => rfl
    | cons second rest => rw [afterEscape?, if_neg fun hboth => h hboth.1]
  rw [withoutEscapes]
  split
  · rename_i after hfound
    rw [hnone] at hfound
    contradiction
  · rfl

/-- A sequence and what follows it are known from the text that they make. -/
theorem escapeOf_append_inj (h : 'm' ∉ codes) (h' : 'm' ∉ codes')
    (heq : escapeOf codes ++ rest = escapeOf codes' ++ rest') : codes = codes' ∧ rest = rest' := by
  have htexts : codes ++ 'm' :: rest = codes' ++ 'm' :: rest' := by
    simpa [escapeOf] using heq
  have hcuts := cutAt_append h rest
  rw [htexts, cutAt_append h' rest', Option.some.injEq, Prod.mk.injEq] at hcuts
  exact ⟨hcuts.1.symm, hcuts.2.symm⟩

end Interlude.Text
