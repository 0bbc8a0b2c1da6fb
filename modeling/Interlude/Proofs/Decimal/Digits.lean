import Mathlib
import Interlude.Decimal.Text

/-!
# The digits of whole numbers

The digits of a number read back as the number. They are decimal digits, at least one of them, as
many as the size of the number asks for, and the first one is zero for the number zero only.
-/

namespace Interlude.Decimal

variable {n k : Nat} {c : Char}

/-- The digits of a number make up the number. -/
theorem ofDigits_digitsOf (n : Nat) : ofDigits (digitsOf n) = n :=
  Nat.ofDigitChars_ten_toDigits

/-- Digits make up a number that has no more of them. -/
theorem ofDigits_lt {digits : List Char} (h : ∀ c ∈ digits, c.isDigit = true) :
    ofDigits digits < 10 ^ digits.length := by
  induction digits using List.reverseRecOn with
  | nil => exact Nat.one_pos
  | append_singleton digits c ih =>
    have hfirst := ih fun d hd => h d (List.mem_append_left _ hd)
    have hlast : c.toNat - '0'.toNat ≤ 9 := by
      have hdigit := h c (List.mem_append_right _ (List.mem_singleton.mpr rfl))
      simp only [Char.isDigit, Bool.and_eq_true, decide_eq_true_eq] at hdigit
      have hnine : c.toNat ≤ '9'.toNat := hdigit.2
      exact Nat.sub_le_sub_right hnine _
    have hdigits : ofDigits (digits ++ [c]) = 10 * ofDigits digits + (c.toNat - '0'.toNat) := by
      rw [ofDigits, List.foldl_append]
      rfl
    rw [hdigits, List.length_append, List.length_singleton, Nat.pow_succ]
    omega

/-- A number has digits. -/
theorem digitsOf_ne_nil (n : Nat) : digitsOf n ≠ [] :=
  Nat.toDigits_ne_nil

/-- The digits of a number are decimal digits. -/
theorem isDigit_of_mem_digitsOf (h : c ∈ digitsOf n) : c.isDigit = true :=
  Nat.isDigit_of_mem_toDigits (by decide) (by decide) h

/-- A number has at most as many digits as the power of ten that is above it. -/
theorem length_digitsOf_le_iff (hk : 0 < k) : (digitsOf n).length ≤ k ↔ n < 10 ^ k :=
  Nat.length_toDigits_le_iff (by decide) hk

theorem digitCount_pos (n : Nat) : 0 < digitCount n :=
  List.length_pos_iff.mpr (digitsOf_ne_nil n)

/-- The number of digits tells the powers of ten around a number above zero. -/
theorem digitCount_bounds (h : 0 < n) : 10 ^ (digitCount n - 1) ≤ n ∧ n < 10 ^ digitCount n := by
  refine ⟨?_, (length_digitsOf_le_iff (digitCount_pos n)).mp le_rfl⟩
  obtain hone | hmore := Nat.eq_zero_or_pos (digitCount n - 1)
  · rw [hone]
    exact h
  · refine not_lt.mp fun hlt => ?_
    have hfewer : digitCount n ≤ digitCount n - 1 := (length_digitsOf_le_iff hmore).mpr hlt
    omega

/-- A number above zero does not begin with the digit zero. -/
theorem exists_digitsOf_eq_cons (h : 0 < n) : ∃ d rest, digitsOf n = d :: rest ∧ d ≠ '0' := by
  induction n using Nat.strongRecOn with
  | ind n ih =>
    by_cases hn : n < 10
    · refine ⟨n.digitChar, [], Nat.toDigits_of_lt_base hn, ?_⟩
      rw [Ne, Nat.digitChar_eq_zero]
      omega
    · obtain ⟨d, rest, hdigits, hd⟩ := ih (n / 10) (by omega) (by omega)
      refine ⟨d, rest ++ [(n % 10).digitChar], ?_, hd⟩
      rw [digitsOf, Nat.toDigits_eq_if (by decide), if_neg hn, ← digitsOf, hdigits,
        List.cons_append]

end Interlude.Decimal
