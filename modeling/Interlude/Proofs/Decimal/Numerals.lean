import Mathlib
import Interlude.Decimal.Text
import Interlude.Proofs.Decimal.Rounding
import Interlude.Proofs.Text.Cutting

/-!
# Reading decimals back

A decimal is written in one form: digits, perhaps a point with more digits, and perhaps an exponent
with its sign. What is written so is read as its digits and its exponent, which is the decimal that
was written or, where zeros were filled in, one of the same value.
-/

namespace Interlude

namespace Decimal

variable {whole fraction text : List Char} {exponent : Option Int} {d : Decimal} {n : Nat}

/-! ### The form of what is written -/

/-- The digits behind a point, if there are any. -/
def fractionText : List Char → List Char
  | [] => []
  | digits => '.' :: digits

/-- An exponent with its sign, if there is one. -/
def exponentText : Option Int → List Char
  | none => []
  | some e => 'e' :: (if e < 0 then signed e else '+' :: signed e)

/-- Digits before the point that do not begin with a zero unless they are only that. -/
structure IsWhole (digits : List Char) : Prop where
  isDigit : ∀ c ∈ digits, c.isDigit = true
  leading : digits = ['0'] ∨ ∃ first rest, digits = first :: rest ∧ first ≠ '0'

/-- A text is a decimal number: its parts have digits only, and they make up a number of the value
of the decimal. -/
def IsNumeral (text : List Char) (d : Decimal) : Prop :=
  ∃ whole fraction exponent, text = whole ++ fractionText fraction ++ exponentText exponent ∧
    IsWhole whole ∧ (∀ c ∈ fraction, c.isDigit = true) ∧
    (ofParts whole fraction (exponent.getD 0)).value = d.value

@[simp] theorem fractionText_nil : fractionText [] = [] := rfl

@[simp] theorem fractionText_cons (c : Char) (rest : List Char) :
    fractionText (c :: rest) = '.' :: c :: rest := rfl

/-- An exponent does not begin with a digit. -/
theorem exponentText_stop (exponent : Option Int) :
    ∀ c ∈ (exponentText exponent).head?, c.isDigit = false := by
  cases exponent <;> simp [exponentText]

/-- What follows the digits before the point does not begin with a digit. -/
theorem fractionText_stop (fraction : List Char) (exponent : Option Int) :
    ∀ c ∈ (fractionText fraction ++ exponentText exponent).head?, c.isDigit = false := by
  cases fraction with
  | nil => simpa using exponentText_stop exponent
  | cons => simp

theorem IsWhole.ne_nil (h : IsWhole whole) : whole ≠ [] := by
  obtain rfl | ⟨first, rest, rfl, -⟩ := h.leading <;> simp

theorem isWhole_digitsOf (n : Nat) : IsWhole (digitsOf n) := by
  refine ⟨fun c => isDigit_of_mem_digitsOf, ?_⟩
  obtain rfl | hn := Nat.eq_zero_or_pos n
  · exact .inl rfl
  · exact .inr (exists_digitsOf_eq_cons hn)

/-- The digits of a whole number are a decimal number. -/
theorem isNumeral_digitsOf (n : Nat) : IsNumeral (digitsOf n) ⟨n, 0⟩ := by
  refine ⟨digitsOf n, [], none, by simp [exponentText], isWhole_digitsOf n, by simp, ?_⟩
  simp [ofParts, ofDigits_digitsOf]

/-! ### Numbers without an exponent -/

/-- Zeros behind the digits multiply by a power of ten. -/
theorem ofDigits_append_zeros (digits : List Char) (k : Nat) :
    ofDigits (digits ++ List.replicate k '0') = 10 ^ k * ofDigits digits :=
  (Nat.ofDigitChars_append 0).trans Nat.ofDigitChars_replicate_zero

/-- Zeros before the digits change nothing. -/
theorem ofDigits_zeros_append (k : Nat) (digits : List Char) :
    ofDigits (List.replicate k '0' ++ digits) = ofDigits digits :=
  (Nat.ofDigitChars_append 0).trans (by rw [Nat.ofDigitChars_replicate_zero]; rfl)

theorem isDigit_of_mem_zeros {k : Nat} {c : Char} (h : c ∈ List.replicate k '0') :
    c.isDigit = true := by
  rw [List.eq_of_mem_replicate h]
  rfl

/-- A number with zeros filled in up to the point, behind which there may be one more zero. -/
theorem isNumeral_filled (point : Bool) (hexponent : 0 ≤ d.exponent) :
    IsNumeral (d.positional point) d := by
  obtain ⟨digits, exponent⟩ := d
  obtain ⟨k, rfl⟩ := Int.eq_ofNat_of_zero_le hexponent
  have htext : positional point ⟨digits, k⟩ =
      (if digits = 0 then ['0'] else digitsOf digits ++ List.replicate k '0') ++
        fractionText (if point then ['0'] else []) ++ exponentText none := by
    cases point <;> simp [positional, fractionText, exponentText]
  refine ⟨_, _, none, htext, ?_, by cases point <;> simp, ?_⟩
  · split
    · exact ⟨by simp, .inl rfl⟩
    · obtain ⟨first, rest, hfirst, hne⟩ := exists_digitsOf_eq_cons (Nat.pos_of_ne_zero ‹_›)
      refine ⟨fun c hc => ?_, .inr ⟨first, rest ++ List.replicate k '0', by rw [hfirst]; rfl, hne⟩⟩
      exact (List.mem_append.mp hc).elim isDigit_of_mem_digitsOf isDigit_of_mem_zeros
  · have hwhole : ofDigits (if digits = 0 then ['0'] else digitsOf digits ++ List.replicate k '0') =
        10 ^ k * digits := by
      split
      · next hzero => rw [hzero, Nat.mul_zero]; rfl
      · rw [ofDigits_append_zeros, ofDigits_digitsOf]
    cases point
    · simp [value, ofParts, hwhole, mul_comm]
    · have hlast := ofDigits_append_zeros
        (if digits = 0 then ['0'] else digitsOf digits ++ List.replicate k '0') 1
      rw [List.replicate_one, hwhole] at hlast
      simp [value, ofParts, hlast]
      ring

/-- A number with the point among its digits. -/
theorem isNumeral_split (hexponent : d.exponent < 0) (hpoint : 0 < d.pointAfter) :
    IsNumeral ((digitsOf d.digits).take d.pointAfter.toNat ++
      '.' :: (digitsOf d.digits).drop d.pointAfter.toNat) d := by
  have hcount : d.pointAfter = (digitsOf d.digits).length + d.exponent := rfl
  obtain ⟨last, rest, hdrop⟩ : ∃ last rest,
      (digitsOf d.digits).drop d.pointAfter.toNat = last :: rest :=
    List.exists_cons_of_ne_nil (by rw [Ne, List.drop_eq_nil_iff]; omega)
  refine ⟨(digitsOf d.digits).take d.pointAfter.toNat, (digitsOf d.digits).drop d.pointAfter.toNat,
    none, ?_, ⟨fun c hc => isDigit_of_mem_digitsOf (List.mem_of_mem_take hc), ?_⟩,
    fun c hc => isDigit_of_mem_digitsOf (List.mem_of_mem_drop hc), ?_⟩
  · simp [hdrop, fractionText, exponentText]
  · have hpos : 0 < d.digits := Nat.pos_of_ne_zero fun hzero => by
      rw [hzero] at hcount
      have hone : (digitsOf 0).length = 1 := rfl
      omega
    obtain ⟨first, tail, hfirst, hne⟩ := exists_digitsOf_eq_cons hpos
    refine .inr ⟨first, tail.take (d.pointAfter.toNat - 1), ?_, hne⟩
    rw [hfirst, List.take_cons (by omega)]
  · have hexponent : (0 : Int) - ((digitsOf d.digits).drop d.pointAfter.toNat).length =
        d.exponent := by
      rw [List.length_drop]
      omega
    rw [ofParts, List.take_append_drop, ofDigits_digitsOf, Option.getD_none, hexponent]

/-- A number that begins behind the point. -/
theorem isNumeral_small (hpoint : d.pointAfter ≤ 0) :
    IsNumeral ('0' :: '.' :: List.replicate (-d.pointAfter).toNat '0' ++ digitsOf d.digits) d := by
  have hcount : d.pointAfter = (digitsOf d.digits).length + d.exponent := rfl
  have hfraction : fractionText (List.replicate (-d.pointAfter).toNat '0' ++ digitsOf d.digits) =
      '.' :: (List.replicate (-d.pointAfter).toNat '0' ++ digitsOf d.digits) := by
    obtain ⟨c, rest, hcons⟩ := List.exists_cons_of_ne_nil
      (List.append_ne_nil_of_right_ne_nil (List.replicate (-d.pointAfter).toNat '0')
        (digitsOf_ne_nil d.digits))
    rw [hcons, fractionText]
    simp
  refine ⟨['0'], List.replicate (-d.pointAfter).toNat '0' ++ digitsOf d.digits, none, ?_,
    ⟨by simp, .inl rfl⟩,
    fun c hc => (List.mem_append.mp hc).elim isDigit_of_mem_zeros isDigit_of_mem_digitsOf, ?_⟩
  · simp [hfraction, exponentText]
  · have hdigits : ofDigits (['0'] ++ (List.replicate (-d.pointAfter).toNat '0' ++
        digitsOf d.digits)) = d.digits := by
      rw [← List.replicate_one, ofDigits_zeros_append, ofDigits_zeros_append, ofDigits_digitsOf]
    have hexponent : (0 : Int) - (List.replicate (-d.pointAfter).toNat '0' ++
        digitsOf d.digits).length = d.exponent := by
      rw [List.length_append, List.length_replicate]
      omega
    rw [ofParts, hdigits, Option.getD_none, hexponent]

/-- Digits with the point among them are a decimal number. -/
theorem isNumeral_positional (point : Bool) (d : Decimal) : IsNumeral (d.positional point) d := by
  by_cases hexponent : 0 ≤ d.exponent
  · exact isNumeral_filled point hexponent
  · unfold positional
    simp only [if_neg hexponent]
    split
    · next hpoint => exact isNumeral_split (by omega) hpoint
    · next hpoint => exact isNumeral_small (by omega)

/-! ### Numbers with an exponent -/

/-- One digit before the point and an exponent. -/
theorem isNumeral_scientific (d : Decimal) : IsNumeral d.scientific d := by
  have hcount : d.pointAfter = (digitsOf d.digits).length + d.exponent := rfl
  obtain ⟨first, rest, hdigits⟩ := List.exists_cons_of_ne_nil (digitsOf_ne_nil d.digits)
  have hdigit : ∀ c ∈ first :: rest, c.isDigit = true := fun c hc =>
    isDigit_of_mem_digitsOf (hdigits ▸ hc)
  have hvalue : ofDigits (first :: rest) = d.digits := hdigits ▸ ofDigits_digitsOf d.digits
  refine ⟨[first], rest, some (d.pointAfter - 1), ?_, ⟨by simpa using hdigit first, ?_⟩,
    fun c hc => hdigit c (List.mem_cons_of_mem _ hc), ?_⟩
  · cases rest <;> simp [scientific, hdigits, fractionText, exponentText]
  · by_cases hzero : first = '0'
    · exact .inl (by rw [hzero])
    · exact .inr ⟨first, [], rfl, hzero⟩
  · have hexponent : d.pointAfter - 1 - rest.length = d.exponent := by
      rw [hdigits, List.length_cons] at hcount
      omega
    rw [ofParts, List.singleton_append, hvalue, Option.getD_some, hexponent]

/-! ### Reading -/

theorem all_isDigit_digitsOf (n : Nat) : (digitsOf n).all Char.isDigit = true :=
  List.all_eq_true.mpr fun _ => isDigit_of_mem_digitsOf

theorem exponent?_minus (n : Nat) : exponent? ('-' :: digitsOf n) = some (-(n : Int)) := by
  have hdigits := And.intro (digitsOf_ne_nil n) (all_isDigit_digitsOf n)
  simp only [exponent?, if_pos hdigits, if_true, ofDigits_digitsOf]

theorem exponent?_plus (n : Nat) : exponent? ('+' :: digitsOf n) = some (n : Int) := by
  have hdigits := And.intro (digitsOf_ne_nil n) (all_isDigit_digitsOf n)
  simp only [exponent?, if_pos hdigits, Bool.false_eq_true, if_false, ofDigits_digitsOf]

theorem exponent?_digitsOf (n : Nat) : exponent? (digitsOf n) = some (n : Int) := by
  have hall := all_isDigit_digitsOf n
  have hvalue := ofDigits_digitsOf n
  obtain ⟨first, rest, hcons⟩ := List.exists_cons_of_ne_nil (digitsOf_ne_nil n)
  rw [hcons] at hall hvalue ⊢
  have hfirst : first.isDigit = true := by simp_all
  have hminus : first ≠ '-' := by
    rintro rfl
    simp at hfirst
  have hplus : first ≠ '+' := by
    rintro rfl
    simp at hfirst
  unfold exponent?
  split
  next heq =>
    split at heq
    · next hminus' => exact absurd (List.cons.inj hminus').1 hminus
    · next hplus' => exact absurd (List.cons.inj hplus').1 hplus
    · obtain ⟨rfl, rfl⟩ := Prod.mk.inj heq
      rw [if_pos ⟨List.cons_ne_nil _ _, hall⟩, hvalue]
      rfl

/-- A whole number is read back with its sign. -/
theorem exponent?_signed (n : Int) : exponent? (signed n) = some n := by
  unfold signed
  split
  · rw [exponent?_minus]
    congr 1
    omega
  · rw [exponent?_digitsOf]
    congr 1
    omega

/-- An exponent is read back with a sign in any case. -/
theorem exponent?_sign (e : Int) :
    exponent? (if e < 0 then signed e else '+' :: signed e) = some e := by
  split
  · exact exponent?_signed e
  · rw [signed, if_neg ‹_›, exponent?_plus]
    congr 1
    omega

/-- A decimal number is read as a decimal of the same value. -/
theorem ofText?_of_isNumeral (h : IsNumeral text d) :
    ∃ d', ofText? text = some d' ∧ d'.value = d.value := by
  obtain ⟨whole, fraction, exponent, rfl, hwhole, hfraction, hvalue⟩ := h
  refine ⟨ofParts whole fraction (exponent.getD 0), ?_, hvalue⟩
  have hend := exponentText_stop exponent
  have hstop := fractionText_stop fraction exponent
  have hne : ¬ (whole = [] ∧ fraction = []) := fun h => hwhole.ne_nil h.1
  unfold ofText?
  rw [List.append_assoc, Text.takeWhile_append_of_stop hwhole.isDigit hstop,
    Text.dropWhile_append_of_stop hwhole.isDigit hstop]
  cases fraction with
  | nil =>
    cases exponent with
    | none => simp [fractionText, exponentText, hwhole.ne_nil]
    | some e => simp [fractionText, exponentText, hwhole.ne_nil, exponent?_sign]
  | cons c rest =>
    simp only [fractionText, List.cons_append]
    rw [← List.cons_append, Text.takeWhile_append_of_stop hfraction hend,
      Text.dropWhile_append_of_stop hfraction hend]
    cases exponent with
    | none => simp [exponentText]
    | some e => simp [exponentText, exponent?_sign]

/-- A decimal number begins with a digit. -/
theorem IsNumeral.exists_cons (h : IsNumeral text d) :
    ∃ first rest, text = first :: rest ∧ first.isDigit = true := by
  obtain ⟨whole, fraction, exponent, rfl, hwhole, -⟩ := h
  obtain ⟨first, rest, rfl⟩ := List.exists_cons_of_ne_nil hwhole.ne_nil
  exact ⟨first, _, rfl, hwhole.isDigit first List.mem_cons_self⟩

end Decimal

namespace Binary64

open Decimal (IsNumeral)

/-- A digit is no letter in either case. -/
theorem toLower_of_isDigit {c : Char} (h : c.isDigit = true) : c.toLower = c := by
  have hrange : c.toNat ≤ 57 := by
    simp only [Char.isDigit, Bool.and_eq_true, decide_eq_true_eq] at h
    exact h.2
  rw [Char.toLower, dif_neg]
  simp only [not_and, UInt32.not_le]
  exact fun hlow => absurd (show 65 ≤ c.toNat from hlow) (by omega)

/-- A decimal number after its sign is read as a floating point number. -/
theorem ofText?_of_isNumeral {text : List Char} {d : Decimal} (negative : Bool)
    (h : IsNumeral text d) :
    ∃ d', d'.value = d.value ∧
      ofText? (if negative then '-' :: text else text) = some (ofDecimal negative d') := by
  obtain ⟨d', hread, hvalue⟩ := Decimal.ofText?_of_isNumeral h
  obtain ⟨first, rest, rfl, hdigit⟩ := h.exists_cons
  refine ⟨d', hvalue, ?_⟩
  have hminus : first ≠ '-' := by
    rintro rfl
    simp at hdigit
  have hplus : first ≠ '+' := by
    rintro rfl
    simp at hdigit
  -- The words for what is infinite or no number begin with a letter.
  have hword (w : String) (hw : ∀ c ∈ w.toList.head?, c.isDigit = false) :
      String.ofList ((first :: rest).map Char.toLower) ≠ w := by
    rintro rfl
    simp [toLower_of_isDigit hdigit, hdigit] at hw
  have hinf := hword "inf" (by simp)
  have hinfinity := hword "infinity" (by simp)
  have hnan := hword "nan" (by simp)
  cases negative <;> simp [ofText?, hminus, hplus, hinf, hinfinity, hnan, hread, -List.map_cons]

end Binary64

end Interlude
