import Mathlib
import Interlude.Proofs.Decimal.Numerals
import Interlude.Proofs.Decimal.Shortest
import Interlude.Proofs.Json.Reader

/-!
# Numbers in JSON

The texts of whole and of floating point numbers are numbers of the grammar, and they read back:
a finite floating point number is found again from its shortest digits, also a zero with a sign.
-/

namespace Interlude.JsonText

variable {text : List Char} {d : Decimal} {x : Binary64}

/-! ### The grammar -/

theorem isDigits_of_ne_nil (hne : text ≠ []) (h : ∀ c ∈ text, c.isDigit = true) :
    isDigits text = true := by
  simpa [isDigits, hne] using h

/-- An exponent with its sign is one of the grammar. -/
theorem isExponent_exponentText (exponent : Option Int) :
    isExponent (Decimal.exponentText exponent) = true := by
  have hdigits (n : Nat) : isDigits (Decimal.digitsOf n) = true :=
    isDigits_of_ne_nil (Decimal.digitsOf_ne_nil n) fun _ => Decimal.isDigit_of_mem_digitsOf
  cases exponent with
  | none => rfl
  | some e =>
    simp only [Decimal.exponentText, Decimal.signed]
    split <;> simp [isExponent, hdigits]

/-- A decimal number is one of the grammar. -/
theorem isUnsigned_of_isNumeral (h : Decimal.IsNumeral text d) : isUnsigned text = true := by
  obtain ⟨whole, fraction, exponent, rfl, hwhole, hfraction, -⟩ := h
  have hend := Decimal.exponentText_stop exponent
  have hstop := Decimal.fractionText_stop fraction exponent
  have hleading : (whole = ['0'] ∨ whole.head? ≠ some '0') := by
    obtain hzero | ⟨first, rest, rfl, hne⟩ := hwhole.leading
    · exact .inl hzero
    · exact .inr (by simpa using hne)
  have hpart : isFraction (Decimal.fractionText fraction ++ Decimal.exponentText exponent) =
      true := by
    have hexponent := isExponent_exponentText exponent
    cases fraction with
    | nil => cases exponent <;> simpa [isFraction, Decimal.exponentText] using hexponent
    | cons c rest =>
      rw [Decimal.fractionText_cons, List.cons_append, isFraction,
        Text.takeWhile_append_of_stop hfraction hend, Text.dropWhile_append_of_stop hfraction hend,
        hexponent, isDigits_of_ne_nil (List.cons_ne_nil c rest) hfraction]
      rfl
  rw [List.append_assoc, isUnsigned, Text.takeWhile_append_of_stop hwhole.isDigit hstop,
    Text.dropWhile_append_of_stop hwhole.isDigit hstop, hpart,
    isDigits_of_ne_nil hwhole.ne_nil hwhole.isDigit]
  simpa using hleading

/-- What is a number without a sign does not begin with a minus sign. -/
theorem isNumber_of_isUnsigned (h : isUnsigned text = true) : isNumber text = true := by
  unfold isNumber
  split
  · simp [isUnsigned, isDigits] at h
  · exact h

/-- A whole number is a number of the grammar. -/
theorem isNumber_signed (n : Int) : isNumber (Decimal.signed n) = true := by
  have hdigits := isUnsigned_of_isNumeral (Decimal.isNumeral_digitsOf n.natAbs)
  unfold Decimal.signed
  split
  · exact hdigits
  · exact isNumber_of_isUnsigned hdigits

theorem isNumber_digitsOf (n : Nat) : isNumber (Decimal.digitsOf n) = true :=
  isNumber_of_isUnsigned (isUnsigned_of_isNumeral (Decimal.isNumeral_digitsOf n))

/-! ### Floating point numbers -/

/-- The text of a floating point number is its shortest decimal, with a sign if it has one. -/
theorem exists_float64Text_eq (x : Binary64) :
    ∃ digits, Decimal.IsNumeral digits x.shortest ∧
      JsonValue.float64Text x = if x.negative then '-' :: digits else digits := by
  unfold JsonValue.float64Text
  by_cases hpositional : x.shortest.digits = 0 ∨
      (-5 < x.shortest.pointAfter ∧ x.shortest.pointAfter ≤ 16)
  · exact ⟨_, Decimal.isNumeral_positional true _, by simp only [if_pos hpositional]⟩
  · exact ⟨_, Decimal.isNumeral_scientific _, by simp only [if_neg hpositional]⟩

/-- The text of a floating point number is a number of the grammar. -/
theorem isNumber_float64Text (x : Binary64) : isNumber (JsonValue.float64Text x) = true := by
  obtain ⟨digits, hnumeral, htext⟩ := exists_float64Text_eq x
  have hdigits := isUnsigned_of_isNumeral hnumeral
  rw [htext]
  split
  · exact hdigits
  · exact isNumber_of_isUnsigned hdigits

/-- A finite floating point number is read back from its text. -/
theorem ofText?_float64Text (hx : x.isFinite) :
    Binary64.ofText? (JsonValue.float64Text x) = some x := by
  obtain ⟨digits, hnumeral, htext⟩ := exists_float64Text_eq x
  obtain ⟨d, hvalue, hread⟩ := Binary64.ofText?_of_isNumeral x.negative hnumeral
  rw [htext, hread, Binary64.ofDecimal_of_value_eq hx hvalue]

end Interlude.JsonText
