import Mathlib
import Interlude.Decimal.Shortest
import Interlude.Proofs.Decimal.Digits

/-!
# Rounding to the nearest magnitude

A fraction is rounded to a finite magnitude if it lies in the interval around that magnitude which
reaches half a unit to either side, or a quarter of a unit downwards where the magnitudes below are
denser. The ends of the interval count if the significand is even. Inside the interval the power of
two of the fraction is the one of the magnitude, except just below a power of two, where it is
one less; there the rounded number is a power of two itself and carries into the exponent.
-/

namespace Interlude

/-- The number that a decimal stands for. -/
def Decimal.value (d : Decimal) : ℚ :=
  d.digits * 10 ^ d.exponent

namespace Binary64

variable {x : Binary64} {q : ℚ} {num den n : Nat} {negative : Bool}

/-! ### Powers and fractions -/

/-- A power with a whole exponent as a fraction of powers with natural exponents. -/
theorem zpow_eq_div (base : ℚ) (hbase : base ≠ 0) (e : Int) :
    base ^ e = base ^ e.toNat / base ^ (-e).toNat := by
  rw [← zpow_natCast, ← zpow_natCast, ← zpow_sub₀ hbase]
  congr 1
  omega

theorem cast_powerOfTen (n : Nat) : ((Decimal.powerOfTen n : Nat) : ℚ) = 10 ^ n := by
  exact_mod_cast (rfl : Nat.pow 10 n = 10 ^ n)

/-- Shifting the numerator or the denominator divides the fraction by a power of two. -/
theorem shiftLeft_div_shiftLeft (num den : Nat) (e : Int) :
    ((num <<< (-e).toNat : Nat) : ℚ) / (den <<< e.toNat : Nat) = (num : ℚ) / den / 2 ^ e := by
  rw [zpow_eq_div 2 (by norm_num), Nat.shiftLeft_eq, Nat.shiftLeft_eq]
  push_cast
  field_simp

theorem log_two_lt_iff {e : Int} (hq : 0 < q) : Int.log 2 q < e ↔ q < 2 ^ e := by
  exact_mod_cast (Int.lt_zpow_iff_log_lt (by decide) hq).symm

/-- Shifted numbers are compared like the fraction with a power of two. -/
theorem shiftLeft_lt_shiftLeft_iff (hden : 0 < den) (e : Int) :
    num <<< (-e).toNat < den <<< e.toNat ↔ (num : ℚ) / den < 2 ^ e := by
  have hshifted : (0 : ℚ) < (den <<< e.toNat : Nat) := by
    rw [Nat.shiftLeft_eq]
    positivity
  have hcast : num <<< (-e).toNat < den <<< e.toNat ↔
      ((num <<< (-e).toNat : Nat) : ℚ) < (den <<< e.toNat : Nat) := Nat.cast_lt.symm
  rw [hcast, ← div_lt_one hshifted, shiftLeft_div_shiftLeft, div_lt_one (by positivity)]

/-- The powers of two of numerator and denominator tell the one of the fraction up to one. -/
theorem div_bounds (hnum : 0 < num) (hden : 0 < den) :
    (2 : ℚ) ^ ((Nat.log2 num : Int) - Nat.log2 den - 1) ≤ (num : ℚ) / den ∧
      (num : ℚ) / den < 2 ^ ((Nat.log2 num : Int) - Nat.log2 den + 1) := by
  have hden' : (0 : ℚ) < den := by exact_mod_cast hden
  have hnumLow : (2 : ℚ) ^ (Nat.log2 num : Int) ≤ num := by
    exact_mod_cast Nat.log2_self_le hnum.ne'
  have hnumHigh : (num : ℚ) < 2 ^ ((Nat.log2 num : Int) + 1) := by
    exact_mod_cast Nat.lt_log2_self (n := num)
  have hdenLow : (2 : ℚ) ^ (Nat.log2 den : Int) ≤ den := by
    exact_mod_cast Nat.log2_self_le hden.ne'
  have hdenHigh : (den : ℚ) ≤ 2 ^ ((Nat.log2 den : Int) + 1) := by
    exact_mod_cast (Nat.lt_log2_self (n := den)).le
  rw [le_div_iff₀ hden', div_lt_iff₀ hden']
  constructor
  · calc (2 : ℚ) ^ ((Nat.log2 num : Int) - Nat.log2 den - 1) * den
        ≤ 2 ^ ((Nat.log2 num : Int) - Nat.log2 den - 1) * 2 ^ ((Nat.log2 den : Int) + 1) := by
          gcongr
      _ = 2 ^ (Nat.log2 num : Int) := by
          rw [← zpow_add₀ (by norm_num)]
          congr 1
          omega
      _ ≤ num := hnumLow
  · calc (num : ℚ) < 2 ^ ((Nat.log2 num : Int) + 1) := hnumHigh
      _ = 2 ^ ((Nat.log2 num : Int) - Nat.log2 den + 1) * 2 ^ (Nat.log2 den : Int) := by
          rw [← zpow_add₀ (by norm_num)]
          congr 1
          omega
      _ ≤ 2 ^ ((Nat.log2 num : Int) - Nat.log2 den + 1) * den := by gcongr

/-- The power of two of a fraction. -/
theorem floorLog2_eq (hnum : 0 < num) (hden : 0 < den) :
    floorLog2 num den = Int.log 2 ((num : ℚ) / den) := by
  have hq : (0 : ℚ) < (num : ℚ) / den := by positivity
  obtain ⟨hlow, hhigh⟩ := div_bounds hnum hden
  have hlow := (not_congr (log_two_lt_iff hq)).mpr hlow.not_gt
  have hhigh := (log_two_lt_iff hq).mpr hhigh
  unfold floorLog2
  simp only [shiftLeft_lt_shiftLeft_iff hden, ← log_two_lt_iff hq]
  split <;> omega

/-! ### The nearest whole number -/

/-- A whole number is the one that a number is rounded to: it is at most a half away, and even if it
is a half away. -/
def RoundsTo (q : ℚ) (n : Nat) : Prop :=
  |q - n| ≤ 1 / 2 ∧ (|q - n| = 1 / 2 → n % 2 = 0)

/-- For a fraction the distance to the whole number is compared with half the denominator. -/
theorem RoundsTo.distance (hden : 0 < den) (h : RoundsTo ((num : ℚ) / den) n) :
    2 * |(num : Int) - n * den| ≤ den ∧ (2 * |(num : Int) - n * den| = den → n % 2 = 0) := by
  have hden' : (0 : ℚ) < den := by exact_mod_cast hden
  have hscale : ((2 * |(num : Int) - n * den| : Int) : ℚ) = 2 * |(num : ℚ) / den - n| * den := by
    push_cast
    rw [mul_assoc, ← abs_of_pos hden', ← abs_mul, abs_of_pos hden', sub_mul,
      div_mul_cancel₀ _ hden'.ne']
  constructor
  · have hle : ((2 * |(num : Int) - n * den| : Int) : ℚ) ≤ (den : Int) := by
      rw [hscale]
      push_cast
      nlinarith [h.1]
    exact_mod_cast hle
  · intro heq
    refine h.2 (mul_right_cancel₀ (b := 2 * (den : ℚ)) (by positivity) ?_)
    have hcast : ((2 * |(num : Int) - n * den| : Int) : ℚ) = (den : Int) := by rw [heq]
    rw [hscale] at hcast
    push_cast at hcast
    linarith

/-- Division with rounding gives the nearest whole number. -/
theorem roundDiv_eq (hden : 0 < den) (h : RoundsTo ((num : ℚ) / den) n) : roundDiv num den = n := by
  obtain ⟨hclose, htie⟩ := h.distance hden
  have hdivmod : (num : Int) = (num / den : Nat) * den + (num % den : Nat) := by
    exact_mod_cast (Nat.div_add_mod' num den).symm
  have hrest : num % den < den := Nat.mod_lt _ hden
  unfold roundDiv
  generalize num / den = quotient at hdivmod ⊢
  generalize num % den = rest at hdivmod hrest ⊢
  have hparts : (num : Int) - n * den = rest - ((n : Int) - quotient) * den := by
    rw [hdivmod]
    ring
  rw [hparts] at hclose htie
  -- The number is the quotient or the one above it, and twice the rest tells which.
  have hcases : n = quotient ∨ n = quotient + 1 := by
    have hlow : -1 < (n : Int) - quotient := by
      by_contra! hk
      nlinarith [le_abs_self ((rest : Int) - (n - quotient) * den)]
    have hhigh : (n : Int) - quotient < 2 := by
      by_contra! hk
      nlinarith [neg_abs_le ((rest : Int) - (n - quotient) * den)]
    omega
  obtain rfl | rfl := hcases
  · simp only [sub_self, zero_mul, sub_zero, Nat.abs_cast] at hclose htie
    rw [if_neg (by omega)]
  · have habove : |(rest : Int) - ((quotient + 1 : Nat) - quotient) * den| = den - rest := by
      rw [abs_of_neg (by push_cast; linarith)]
      push_cast
      ring
    rw [habove] at hclose htie
    rw [if_pos (by omega)]

/-! ### Finite magnitudes -/

theorem minExponent_le_exponent (x : Binary64) : minExponent ≤ x.exponent := by
  unfold exponent
  omega

theorem significand_lt (x : Binary64) : x.significand < 2 * perExponent := by
  have hrest : x.magnitude.val % perExponent < perExponent := Nat.mod_lt _ (by decide)
  unfold significand
  split <;> omega

/-- Above the lowest exponent the significand has its highest bit. -/
theorem perExponent_le_significand (h : minExponent < x.exponent) :
    perExponent ≤ x.significand := by
  unfold exponent at h
  unfold significand
  rw [if_neg (by omega)]
  omega

/-- The place of a magnitude follows from its exponent and its significand. -/
theorem magnitude_eq (x : Binary64) :
    x.magnitude.val = (x.exponent - minExponent).toNat * perExponent + x.significand := by
  have hplace : x.magnitude.val = x.exponentField * perExponent + x.magnitude.val % perExponent :=
    (Nat.div_add_mod' _ _).symm
  rw [hplace]
  unfold exponent significand
  obtain hfield | ⟨k, hfield⟩ : x.exponentField = 0 ∨ ∃ k, x.exponentField = k + 1 := by
    cases x.exponentField <;> simp
  · simp [hfield]
  · have hexponent : (minExponent + ((max (k + 1) 1 - 1 : Nat) : Int) - minExponent).toNat = k := by
      omega
    rw [hfield, hexponent, if_neg (by omega)]
    ring_nf

/-- A magnitude without a significand is the one at the first place. -/
theorem magnitude_eq_zero (h : x.significand = 0) : x.magnitude.val = 0 := by
  have hmin : ¬ minExponent < x.exponent := fun hlt => by
    have hle := perExponent_le_significand hlt
    simp [h, perExponent] at hle
  have hlowest : (x.exponent - minExponent).toNat = 0 := by omega
  rw [magnitude_eq, h, hlowest]
  rfl

/-- A finite number is found again at its place. -/
theorem ofPlace_magnitude (hx : x.isFinite) : ofPlace x.negative x.magnitude.val = x := by
  have hlt : x.magnitude.val < infinityPlace := of_decide_eq_true hx
  obtain ⟨negative, magnitude⟩ := x
  simp only [ofPlace, min_eq_left hlt.le]

/-! ### The interval of a magnitude -/

/-- A number lies in the interval around a magnitude that is rounded to it, compared in quarters of
the unit in the last place. -/
structure Covers (x : Binary64) (q : ℚ) : Prop where
  lower : (x.lowerQuarters : ℚ) ≤ 4 * (q / 2 ^ x.exponent)
  upper : 4 * (q / 2 ^ x.exponent) ≤ x.upperQuarters
  ends : x.significand % 2 = 1 →
    (x.lowerQuarters : ℚ) < 4 * (q / 2 ^ x.exponent) ∧ 4 * (q / 2 ^ x.exponent) < x.upperQuarters

/-- The lower end is at most half a unit below the magnitude. -/
theorem le_lowerQuarters_add (x : Binary64) : 4 * (x.significand : ℚ) - 2 ≤ x.lowerQuarters := by
  have h : 4 * x.significand ≤ x.lowerQuarters + 2 := by
    unfold lowerQuarters
    split <;> omega
  have hcast : (4 * x.significand : ℚ) ≤ x.lowerQuarters + 2 := by exact_mod_cast h
  linarith

theorem cast_upperQuarters (x : Binary64) : (x.upperQuarters : ℚ) = 4 * x.significand + 2 := by
  unfold upperQuarters
  push_cast
  ring

/-- In units of the last place, a number in the interval rounds to the significand. -/
theorem Covers.roundsTo (h : x.Covers q) : RoundsTo (q / 2 ^ x.exponent) x.significand := by
  have hlow := h.lower
  have hhigh := h.upper
  have hhalf := le_lowerQuarters_add x
  have htop := cast_upperQuarters x
  refine ⟨abs_le.mpr ⟨by linarith, by linarith⟩, fun htie => ?_⟩
  by_contra hodd
  obtain ⟨hlow, hhigh⟩ := h.ends (by omega)
  obtain heq | heq := (abs_eq (by norm_num)).mp htie <;> linarith

/-- The interval ends below the power of two above all significands. -/
theorem Covers.lt_zpow (h : x.Covers q) : q < 2 ^ (x.exponent + 53) := by
  have hhigh := h.upper
  rw [cast_upperQuarters] at hhigh
  have hsig : (x.significand : ℚ) + 1 ≤ 2 ^ 53 := by exact_mod_cast significand_lt x
  rw [zpow_add₀ (by norm_num), mul_comm, ← div_lt_iff₀ (by positivity)]
  norm_num at hsig ⊢
  linarith

/-- A number of the interval below the power of two of the magnitude occurs only for a power of two,
and then it is at most a quarter of a unit below. -/
theorem Covers.carries (h : x.Covers q) (hexponent : minExponent < x.exponent)
    (hq : q < 2 ^ (x.exponent + 52)) :
    x.significand = perExponent ∧ 4 * (perExponent : ℚ) - 1 ≤ 4 * (q / 2 ^ x.exponent) := by
  have hbelow : q / 2 ^ x.exponent < perExponent := by
    rw [zpow_add₀ (by norm_num), mul_comm, ← div_lt_iff₀ (by positivity)] at hq
    exact_mod_cast hq
  have hsig : x.significand = perExponent := by
    have hle := perExponent_le_significand hexponent
    have hlt : (x.significand : ℚ) < perExponent + 1 := by
      linarith [h.lower, le_lowerQuarters_add x]
    have : x.significand < perExponent + 1 := by exact_mod_cast hlt
    omega
  have hfield : 1 < x.exponentField := by
    unfold exponent at hexponent
    omega
  have hzero : x.magnitude.val % perExponent = 0 := by
    unfold significand at hsig
    rw [if_neg (by omega)] at hsig
    omega
  refine ⟨hsig, ?_⟩
  have hlow := h.lower
  rw [lowerQuarters, if_pos ⟨hzero, hfield⟩, hsig, Nat.cast_sub (by decide)] at hlow
  exact_mod_cast hlow

/-- A number of the interval below the power of two of the magnitude has the next lower power of
two, and is rounded to twice the significand there. -/
theorem Covers.below (h : x.Covers q) (hexponent : minExponent < x.exponent)
    (hq : q < 2 ^ (x.exponent + 52)) :
    x.significand = perExponent ∧ 2 ^ (x.exponent + 51) ≤ q ∧
      RoundsTo (q / 2 ^ (x.exponent - 1)) (2 * perExponent) := by
  obtain ⟨hsig, hnear⟩ := h.carries hexponent hq
  have hcast : (perExponent : ℚ) = 2 ^ 52 := by norm_num [perExponent]
  have hpos : (0 : ℚ) < 2 ^ x.exponent := by positivity
  rw [hcast] at hnear
  refine ⟨hsig, ?_, ?_⟩
  · rw [zpow_add₀ (by norm_num), mul_comm, ← le_div_iff₀ hpos]
    norm_num at hnear ⊢
    linarith
  · have hdouble : q / 2 ^ (x.exponent - 1) = 2 * (q / 2 ^ x.exponent) := by
      rw [zpow_sub_one₀ (by norm_num)]
      field_simp
    have htop : q / 2 ^ x.exponent < 2 ^ 52 := by
      rw [zpow_add₀ (by norm_num), mul_comm, ← div_lt_iff₀ hpos] at hq
      exact_mod_cast hq
    refine ⟨abs_le.mpr ?_, fun _ => by decide⟩
    push_cast
    rw [hdouble, hcast]
    constructor <;> linarith

/-- A fraction in the interval around a finite magnitude is rounded to that magnitude. -/
theorem ofRatio_eq (hx : x.isFinite) (hnum : 0 < num) (hden : 0 < den)
    (h : x.Covers ((num : ℚ) / den)) : ofRatio x.negative num den = x := by
  have hq : (0 : ℚ) < (num : ℚ) / den := by positivity
  have hround (e : Int) (n : Nat) (hn : RoundsTo ((num : ℚ) / den / 2 ^ e) n) :
      roundDiv (num <<< (-e).toNat) (den <<< e.toNat) = n :=
    roundDiv_eq (by rw [Nat.shiftLeft_eq]; positivity) (by rwa [shiftLeft_div_shiftLeft])
  have hlog : Int.log 2 ((num : ℚ) / den) < x.exponent + 53 := (log_two_lt_iff hq).mpr h.lt_zpow
  have hmin := minExponent_le_exponent x
  unfold ofRatio
  rw [if_neg (by omega), floorLog2_eq hnum hden]
  by_cases hsame : max (Int.log 2 ((num : ℚ) / den) - 52) minExponent = x.exponent
  · simp only [hsame]
    rw [hround _ _ h.roundsTo, ← magnitude_eq, ofPlace_magnitude hx]
  · -- The fraction is just below a power of two; rounding it carries into the exponent.
    have hexponent : minExponent < x.exponent := by omega
    obtain ⟨hsig, hlow, hnear⟩ := h.below hexponent ((log_two_lt_iff hq).mp (by omega))
    have hlow := (not_congr (log_two_lt_iff hq)).mpr hlow.not_gt
    have hlower : max (Int.log 2 ((num : ℚ) / den) - 52) minExponent = x.exponent - 1 := by omega
    have hplace : (x.exponent - 1 - minExponent).toNat * perExponent + 2 * perExponent =
        x.magnitude.val := by
      have hstep : (x.exponent - minExponent).toNat = (x.exponent - 1 - minExponent).toNat + 1 := by
        omega
      rw [magnitude_eq, hsig, hstep]
      ring
    simp only [hlower]
    rw [hround _ _ hnear, hplace, ofPlace_magnitude hx]

/-! ### Decimals -/

/-- A decimal above zero lies between the powers of ten that its point tells. -/
theorem value_bounds {d : Decimal} (hd : 0 < d.digits) :
    10 ^ (d.pointAfter - 1) ≤ d.value ∧ d.value < 10 ^ d.pointAfter := by
  obtain ⟨hle, hlt⟩ := Decimal.digitCount_bounds hd
  unfold Decimal.value Decimal.pointAfter
  constructor
  · calc (10 : ℚ) ^ ((Decimal.digitCount d.digits : Int) + d.exponent - 1)
        ≤ 10 ^ (((Decimal.digitCount d.digits - 1 : Nat) : Int) + d.exponent) :=
          zpow_le_zpow_right₀ (by norm_num) (by omega)
      _ = 10 ^ (Decimal.digitCount d.digits - 1) * 10 ^ d.exponent := by
          rw [zpow_add₀ (by norm_num), zpow_natCast]
      _ ≤ d.digits * 10 ^ d.exponent := by
          gcongr
          exact_mod_cast hle
  · rw [zpow_add₀ (by norm_num), zpow_natCast]
    gcongr
    exact_mod_cast hlt

theorem exponent_le (hx : x.isFinite) : x.exponent ≤ 971 := by
  have hlt : x.magnitude.val < infinityPlace := of_decide_eq_true hx
  have hfield : x.exponentField < 2047 := Nat.div_lt_of_lt_mul (by rwa [mul_comm])
  unfold exponent minExponent
  omega

/-- A decimal in the interval around a finite magnitude is rounded to that magnitude. -/
theorem ofDecimal_eq {d : Decimal} (hx : x.isFinite) (hsig : 0 < x.significand)
    (h : x.Covers d.value) : ofDecimal x.negative d = x := by
  have hhalf : (2 : ℚ) ^ (-1075 : Int) ≤ d.value := by
    have hquarters := (le_lowerQuarters_add x).trans h.lower
    have hone : (1 : ℚ) ≤ x.significand := by exact_mod_cast hsig
    have hmin : -1075 ≤ x.exponent - 1 := by
      have hle := minExponent_le_exponent x
      unfold minExponent at hle
      omega
    calc (2 : ℚ) ^ (-1075 : Int) ≤ 2 ^ (x.exponent - 1) := zpow_le_zpow_right₀ (by norm_num) hmin
      _ = 1 / 2 * 2 ^ x.exponent := by rw [zpow_sub_one₀ (by norm_num)]; ring
      _ ≤ d.value := by rw [← le_div_iff₀ (by positivity)]; linarith
  have hdigits : 0 < d.digits := by
    by_contra hzero
    rw [Decimal.value, Nat.eq_zero_of_not_pos hzero, Nat.cast_zero, zero_mul] at hhalf
    exact absurd hhalf (not_le.mpr (by positivity))
  obtain ⟨hlow, hhigh⟩ := value_bounds hdigits
  have hsmall : ¬ d.pointAfter < -400 := by
    intro hpoint
    have hpower : (10 : ℚ) ^ d.pointAfter ≤ 10 ^ (-400 : Int) :=
      zpow_le_zpow_right₀ (by norm_num) hpoint.le
    have hfar : (10 : ℚ) ^ (-400 : Int) < 2 ^ (-1075 : Int) := by
      rw [zpow_neg, zpow_neg, inv_lt_inv₀ (by positivity) (by positivity)]
      exact_mod_cast (by decide +kernel : 2 ^ 1075 < 10 ^ 400)
    linarith
  have hgreat : ¬ 400 < d.pointAfter := by
    intro hpoint
    have hpower : (10 : ℚ) ^ (400 : Int) ≤ 10 ^ (d.pointAfter - 1) :=
      zpow_le_zpow_right₀ (by norm_num) (by omega)
    have htop : (2 : ℚ) ^ (x.exponent + 53) ≤ 2 ^ (1024 : Int) :=
      zpow_le_zpow_right₀ (by norm_num) (by have := exponent_le hx; omega)
    have hfar : (2 : ℚ) ^ (1024 : Int) < 10 ^ (400 : Int) := by
      exact_mod_cast (by decide +kernel : 2 ^ 1024 < 10 ^ 400)
    exact hfar.not_gt (hpower.trans_lt (hlow.trans_lt (h.lt_zpow.trans_le htop)))
  have hfraction : ((d.digits * Decimal.powerOfTen d.exponent.toNat : Nat) : ℚ) /
      (Decimal.powerOfTen (-d.exponent).toNat : Nat) = d.value := by
    rw [Decimal.value, zpow_eq_div 10 (by norm_num), Nat.cast_mul, cast_powerOfTen, cast_powerOfTen,
      mul_div_assoc]
  unfold ofDecimal
  rw [if_neg (by omega), if_neg hgreat]
  exact ofRatio_eq hx (Nat.mul_pos hdigits (Nat.pow_pos (by decide))) (Nat.pow_pos (by decide))
    (hfraction ▸ h)

end Binary64

end Interlude
