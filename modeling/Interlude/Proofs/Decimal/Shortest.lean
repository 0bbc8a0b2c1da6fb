import Mathlib
import Interlude.Proofs.Decimal.Rounding

/-!
# The shortest decimal lies in the interval

A number of a decimal grid is accepted only if it lies in the interval around the magnitude, and
one of the two neighbours of the magnitude does so as soon as the step of the grid is below the
width of the interval. This is the case from the seventeenth digit on, so a decimal is always found,
and it is rounded to the magnitude.
-/

namespace Interlude.Binary64

variable {x : Binary64} {q : ℚ} {num den n : Nat} {e : Int}

/-! ### Grids -/

/-- The step of a decimal grid in quarters of the unit in the last place. -/
def step (x : Binary64) (e : Int) : ℚ :=
  4 * (10 ^ e / 2 ^ x.exponent)

theorem step_pos (x : Binary64) (e : Int) : 0 < x.step e := by
  unfold step
  positivity

theorem grid_unit_pos (x : Binary64) (e : Int) : 0 < (x.grid e).unit := by
  simp only [grid, Nat.shiftLeft_eq]
  exact Nat.mul_pos (Nat.pow_pos (by decide)) (Nat.pow_pos (by decide))

/-- The two numbers of a grid have the ratio of its step. -/
theorem grid_point_eq (x : Binary64) (e : Int) :
    ((x.grid e).point : ℚ) = x.step e * (x.grid e).unit := by
  have hstep : x.step e = 10 ^ e * 2 ^ (2 - x.exponent) := by
    rw [step, zpow_sub₀ (by norm_num)]
    ring
  have hneg : (x.exponent - 2).toNat = (-(2 - x.exponent)).toNat := by rw [neg_sub]
  simp only [grid, Nat.shiftLeft_eq, hstep]
  rw [zpow_eq_div 10 (by norm_num) e, zpow_eq_div 2 (by norm_num) (2 - x.exponent), hneg]
  push_cast [cast_powerOfTen]
  field_simp

/-- A number of a grid is compared with whole quarters in the scale of the grid. -/
theorem grid_le_iff (x : Binary64) (e : Int) (n quarters : Nat) :
    quarters * (x.grid e).unit ≤ n * (x.grid e).point ↔ (quarters : ℚ) ≤ n * x.step e := by
  have hunit : (0 : ℚ) < (x.grid e).unit := by exact_mod_cast grid_unit_pos x e
  rw [← Nat.cast_le (α := ℚ), Nat.cast_mul, Nat.cast_mul, grid_point_eq, ← mul_assoc,
    mul_le_mul_iff_left₀ hunit]

theorem grid_ge_iff (x : Binary64) (e : Int) (n quarters : Nat) :
    n * (x.grid e).point ≤ quarters * (x.grid e).unit ↔ n * x.step e ≤ (quarters : ℚ) := by
  have hunit : (0 : ℚ) < (x.grid e).unit := by exact_mod_cast grid_unit_pos x e
  rw [← Nat.cast_le (α := ℚ), Nat.cast_mul, Nat.cast_mul, grid_point_eq, ← mul_assoc,
    mul_le_mul_iff_left₀ hunit]

/-- A number of a grid lies in the interval around the magnitude if it does so in quarters. -/
theorem covers_mul_iff : x.Covers (n * 10 ^ e) ↔
    (x.lowerQuarters : ℚ) ≤ n * x.step e ∧ n * x.step e ≤ x.upperQuarters ∧
      (x.significand % 2 = 1 →
        (x.lowerQuarters : ℚ) < n * x.step e ∧ n * x.step e < x.upperQuarters) := by
  have hquarters : n * x.step e = 4 * (n * (10 : ℚ) ^ e / 2 ^ x.exponent) := by
    rw [step]
    ring
  rw [hquarters]
  exact ⟨fun h => ⟨h.lower, h.upper, h.ends⟩, fun h => ⟨h.1, h.2.1, h.2.2⟩⟩

/-- The grid accepts the numbers in the interval around the magnitude. -/
theorem grid_holds_iff : (x.grid e).holds x n = true ↔ x.Covers (n * 10 ^ e) := by
  rw [covers_mul_iff]
  simp only [Grid.holds]
  split
  · next heven =>
    simp only [Bool.and_eq_true, decide_eq_true_eq, grid_le_iff, grid_ge_iff]
    exact ⟨fun h => ⟨h.1, h.2, fun hodd => absurd hodd (by omega)⟩, fun h => ⟨h.1, h.2.1⟩⟩
  · next hodd =>
    simp only [Bool.and_eq_true, decide_eq_true_eq, ← not_le, grid_le_iff, grid_ge_iff]
    exact ⟨fun h => ⟨(not_le.mp h.1).le, (not_le.mp h.2).le, fun _ => h⟩,
      fun h => h.2.2 (by omega)⟩

/-- The neighbour that is chosen is accepted. -/
theorem holds_of_nearest? {g : Grid} (h : g.nearest? x = some n) : g.holds x n = true := by
  simp only [Grid.nearest?] at h
  split at h
  · cases h
  · next hbelow _ =>
    obtain rfl := Option.some.inj h
    exact hbelow
  · next _ habove =>
    obtain rfl := Option.some.inj h
    exact habove
  · next hbelow habove =>
    split at h
    · obtain rfl := Option.some.inj h
      exact hbelow
    · obtain rfl := Option.some.inj h
      exact habove

/-- One of the two neighbours of the magnitude is accepted if the step is below the width of the
interval. -/
theorem exists_nearest? (hsig : 0 < x.significand)
    (hstep : x.lowerQuarters + x.step e < x.upperQuarters) :
    ∃ n, (x.grid e).nearest? x = some n := by
  have hpoint : 0 < (x.grid e).point := by
    have : (0 : ℚ) < (x.grid e).point := by
      rw [grid_point_eq]
      exact mul_pos (step_pos x e) (by exact_mod_cast grid_unit_pos x e)
    exact_mod_cast this
  set below := 4 * x.significand * (x.grid e).unit / (x.grid e).point with hbelow
  have hle : below * x.step e ≤ (4 * x.significand : Nat) :=
    (grid_ge_iff x e _ _).mp (Nat.div_mul_le_self _ _)
  have hlt : ((4 * x.significand : Nat) : ℚ) < (below + 1 : Nat) * x.step e := by
    rw [← not_le, ← grid_ge_iff, not_le, mul_comm (below + 1)]
    exact Nat.lt_mul_div_succ _ hpoint
  have hlower : x.lowerQuarters < 4 * x.significand := by
    unfold lowerQuarters
    split <;> omega
  have hlower : (x.lowerQuarters : ℚ) < (4 * x.significand : Nat) := by exact_mod_cast hlower
  have hupper : ((4 * x.significand : Nat) : ℚ) < x.upperQuarters := by
    exact_mod_cast Nat.lt_add_of_pos_right (by decide)
  -- Strictly inside the interval a number is accepted whatever the significand is.
  have hinside (n : Nat) (hl : (x.lowerQuarters : ℚ) < n * x.step e)
      (hu : n * x.step e < (x.upperQuarters : ℚ)) : (x.grid e).holds x n = true :=
    grid_holds_iff.mpr (covers_mul_iff.mpr ⟨hl.le, hu.le, fun _ => ⟨hl, hu⟩⟩)
  have hone : (x.grid e).holds x below = true ∨ (x.grid e).holds x (below + 1) = true := by
    obtain hl | hl := lt_or_ge (x.lowerQuarters : ℚ) (below * x.step e)
    · exact .inl (hinside _ hl (by linarith))
    · refine .inr (hinside _ (by linarith) ?_)
      push_cast
      linarith
  simp only [Grid.nearest?, ← hbelow]
  split
  · next h1 h2 => simp [h1, h2] at hone
  · exact ⟨_, rfl⟩
  · exact ⟨_, rfl⟩
  · split <;> exact ⟨_, rfl⟩

/-! ### Seventeen digits -/

/-- The magnitude as a number. -/
def size (x : Binary64) : ℚ :=
  x.significand * 2 ^ x.exponent

/-- The power of ten of a fraction. -/
theorem floorLog10_eq (hnum : 0 < num) (hden : 0 < den) :
    floorLog10 num den = Int.log 10 ((num : ℚ) / den) := by
  have hnum' : (0 : ℚ) < num := by exact_mod_cast hnum
  have hden' : (0 : ℚ) < den := by exact_mod_cast hden
  have hq : (0 : ℚ) < (num : ℚ) / den := by positivity
  have hlog {t : Int} (hle : (10 : ℚ) ^ t ≤ num / den) (hlt : (num : ℚ) / den < 10 ^ (t + 1)) :
      t = Int.log 10 ((num : ℚ) / den) := by
    have hle := (Int.zpow_le_iff_le_log (b := 10) (by decide) hq).mp (by exact_mod_cast hle)
    have hlt := (Int.lt_zpow_iff_log_lt (b := 10) (by decide) hq).mp (by exact_mod_cast hlt)
    omega
  unfold floorLog10
  split
  · next hle =>
    obtain ⟨hlow, hhigh⟩ := Decimal.digitCount_bounds (Nat.div_pos hle hden)
    have hcount := Decimal.digitCount_pos (num / den)
    generalize Decimal.digitCount (num / den) = count at hlow hhigh hcount ⊢
    rw [Nat.le_div_iff_mul_le hden] at hlow
    rw [Nat.div_lt_iff_lt_mul hden] at hhigh
    apply hlog
    · rw [le_div_iff₀ hden', show (count : Int) - 1 = ((count - 1 : Nat) : Int) by omega,
        zpow_natCast]
      exact_mod_cast hlow
    · rw [div_lt_iff₀ hden', sub_add_cancel, zpow_natCast]
      exact_mod_cast hhigh
  · next hlt =>
    obtain ⟨hlow, hhigh⟩ := Decimal.digitCount_bounds (n := (den - 1) / num)
      (Nat.div_pos (by omega) hnum)
    have hcount := Decimal.digitCount_pos ((den - 1) / num)
    generalize Decimal.digitCount ((den - 1) / num) = count at hlow hhigh hcount ⊢
    rw [Nat.le_div_iff_mul_le hnum] at hlow
    rw [Nat.div_lt_iff_lt_mul hnum] at hhigh
    have hlow : 10 ^ (count - 1) * num < den := by omega
    have hhigh : den ≤ 10 ^ count * num := by omega
    apply hlog
    · rw [zpow_neg, zpow_natCast, le_div_iff₀ hden', inv_mul_le_iff₀ (by positivity)]
      exact_mod_cast hhigh
    · rw [show -(count : Int) + 1 = -((count - 1 : Nat) : Int) by omega, zpow_neg, zpow_natCast,
        div_lt_iff₀ hden', lt_inv_mul_iff₀ (by positivity)]
      exact_mod_cast hlow

/-- The power of ten of the first digit is the one of the magnitude. -/
theorem leadingPower_eq (hsig : 0 < x.significand) : x.leadingPower = Int.log 10 x.size := by
  have hsize : ((x.significand <<< x.exponent.toNat : Nat) : ℚ) /
      (1 <<< (-x.exponent).toNat : Nat) = x.size := by
    rw [size, zpow_eq_div 2 (by norm_num), Nat.shiftLeft_eq, Nat.shiftLeft_eq, one_mul]
    push_cast
    rw [mul_div_assoc]
  rw [leadingPower, floorLog10_eq _ _, hsize]
  · rw [Nat.shiftLeft_eq]
    positivity
  · rw [Nat.shiftLeft_eq]
    positivity

/-- With seventeen digits the step of the grid is below the width of the interval. -/
theorem seventeen_digits (hsig : 0 < x.significand) :
    x.lowerQuarters + x.step (x.leadingPower - 16) < x.upperQuarters := by
  have hsize : 0 < x.size := by
    unfold size
    positivity
  have hpower : (10 : ℚ) ^ x.leadingPower ≤ x.size := by
    rw [leadingPower_eq hsig]
    exact_mod_cast Int.zpow_log_le_self (by decide) hsize
  have hstep : x.step (x.leadingPower - 16) ≤ 4 * x.significand / 10 ^ 16 := by
    have hdiv : (10 : ℚ) ^ x.leadingPower / 2 ^ x.exponent ≤ x.significand := by
      rwa [div_le_iff₀ (by positivity)]
    calc x.step (x.leadingPower - 16)
        = 4 * (10 ^ x.leadingPower / 2 ^ x.exponent) / 10 ^ 16 := by
          rw [step, zpow_sub₀ (by norm_num)]
          ring
      _ ≤ 4 * x.significand / 10 ^ 16 := by gcongr
  have hupper := cast_upperQuarters x
  unfold lowerQuarters
  split
  · next hpowerOfTwo =>
    have hsig : x.significand = perExponent := by
      unfold significand
      rw [hpowerOfTwo.1, if_neg (by omega), zero_add]
    rw [hsig] at hstep hupper ⊢
    rw [Nat.cast_sub (by decide)]
    norm_num [perExponent] at hstep hupper ⊢
    linarith
  · have hbits : (x.significand : ℚ) ≤ 2 * perExponent := by exact_mod_cast (significand_lt x).le
    have hper : (perExponent : ℚ) = 2 ^ 52 := by norm_num [perExponent]
    rw [Nat.cast_sub (by omega)]
    push_cast
    linarith

/-! ### The decimal that is found -/

/-- Zeros at the end of the digits are taken over by the exponent. -/
theorem dropZeros_value (digits : Nat) (exponent : Int) :
    (dropZeros digits exponent).value = digits * 10 ^ exponent := by
  fun_induction dropZeros digits exponent with
  | case1 digits exponent h ih =>
    have hten : digits = 10 * (digits / 10) := by omega
    rw [ih, zpow_add_one₀ (by norm_num)]
    conv_rhs => rw [hten]
    push_cast
    ring
  | case2 => rfl

/-- The shortest decimal of a magnitude above zero lies in its interval. -/
theorem covers_shortest (hsig : 0 < x.significand) : x.Covers x.shortest.value := by
  obtain ⟨digits, hlast⟩ := exists_nearest? hsig (seventeen_digits hsig)
  -- The search succeeds at the last grid at the latest.
  obtain ⟨d, hfound⟩ : ∃ d, ((List.range 17).findSome? fun (n : Nat) =>
      ((x.grid (x.leadingPower - n)).nearest? x).map fun digits =>
        dropZeros digits (x.grid (x.leadingPower - n)).exponent) = some d := by
    rw [← Option.isSome_iff_exists, List.findSome?_isSome_iff]
    exact ⟨16, by simp, by simp [hlast]⟩
  obtain ⟨n, -, hn⟩ := List.exists_of_findSome?_eq_some hfound
  obtain ⟨digits, hdigits, rfl⟩ := Option.map_eq_some_iff.mp hn
  unfold shortest
  rw [if_neg hsig.ne']
  simp only [hfound, Option.getD_some, dropZeros_value]
  exact grid_holds_iff.mp (holds_of_nearest? hdigits)

/-- A decimal of the value of the shortest one is rounded to the number. -/
theorem ofDecimal_of_value_eq {d : Decimal} (hx : x.isFinite) (h : d.value = x.shortest.value) :
    ofDecimal x.negative d = x := by
  obtain hzero | hpos := Nat.eq_zero_or_pos x.significand
  · have hdigits : d.digits = 0 := by
      rw [shortest, if_pos hzero] at h
      simpa [Decimal.value, zpow_ne_zero] using h
    rw [ofDecimal, if_pos (.inl hdigits), ← magnitude_eq_zero hzero, ofPlace_magnitude hx]
  · exact ofDecimal_eq hx hpos (h ▸ covers_shortest hpos)

end Interlude.Binary64
