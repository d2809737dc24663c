import Mathlib
import ChartOverlay.Proofs.DoubleSpecial
import ChartOverlay.Proofs.Smoothing

/-!
# Which weights vanish

A weight is the exponential of a quotient that is calculated in five roundings. Whether it underflows depends on how
far its lag is from the peak, measured in deviations of the curve: up to √1480 of them the exponent is at least -744
(`isWithin_bellExponent`), where the exponential is a double, and from √1495 of them on it is at most -747
(`bellExponent_le`), where it is less than any.
-/

namespace ChartOverlay

open Arith Double

/-! ### Deviations -/

namespace Span

/-- How many deviations the window spans, exactly. -/
def size : Span Float → ℚ
  | whole n => n
  | value x => ratio x

/-- A finite span above zero. -/
def IsProper : Span Float → Prop
  | whole n => 0 < n
  | value x => isFinite x = true ∧ 0 < ratio x

variable {sigma : Span Float} {window : Int} {s : Float}

theorem IsProper.size_pos (proper : sigma.IsProper) : 0 < sigma.size := by
  cases sigma with
  | whole n => exact Int.cast_pos.mpr proper
  | value x => exact proper.2

/-- The deviation is the quotient of window and span but for a rounding of either. -/
theorem isResult_deviation (valid : 1 ≤ window) (proper : sigma.IsProper) (h : sigma.deviation window = .ok s) :
    ∃ w : ℚ, 99999 / 100000 * window ≤ w ∧ w ≤ 100001 / 100000 * window ∧ IsResult (w / sigma.size) s := by
  have pos : (1 : ℚ) ≤ window := by exact_mod_cast valid
  cases sigma with
  | whole n =>
    obtain ⟨-, -, rfl⟩ := ratio?_ok_iff.mp h
    exact ⟨window, by linarith, by linarith, isResult_ofRatio (by omega) proper⟩
  | value x =>
    obtain ⟨width, whole, h⟩ := bind_ok h
    obtain ⟨small, rfl⟩ := ofInt?_ok_iff.mp whole
    obtain ⟨-, rfl⟩ := div?_ok_iff.mp h
    have finite := (isFinite_ofInt window).mpr small
    have ⟨lower, upper⟩ := (isResult_ofInt (n := window) (by omega)).share finite
      ((zpow_le_one_of_nonpos₀ (by norm_num) (by norm_num)).trans pos)
    exact ⟨_, lower, upper, isResult_div finite proper.1 proper.2.ne'⟩

theorem deviation_nonneg (valid : 1 ≤ window) (proper : sigma.IsProper) (h : sigma.deviation window = .ok s)
    (finite : isFinite s = true) : 0 ≤ ratio s := by
  obtain ⟨w, lower, -, result⟩ := isResult_deviation valid proper h
  have span := proper.size_pos
  have pos : (0 : ℚ) < window := by exact_mod_cast valid
  have width : 0 < w := lt_of_lt_of_le (by positivity) lower
  exact result.ge finite isDouble_zero (by positivity)

theorem le_deviation (valid : 1 ≤ window) (proper : sigma.IsProper) (h : sigma.deviation window = .ok s)
    (finite : isFinite s = true) (wide : 1 / 40 ≤ window / sigma.size) :
    99998 / 100000 * (window / sigma.size) ≤ ratio s := by
  obtain ⟨w, lower, -, result⟩ := isResult_deviation valid proper h
  have calculated : 99999 / 100000 * (window / sigma.size) ≤ w / sigma.size := by
    rw [← mul_div_assoc]
    exact div_le_div_of_nonneg_right lower proper.size_pos.le
  have normal : (2 : ℚ) ^ (-1022 : ℤ) ≤ 2 ^ (-10 : ℤ) := zpow_le_zpow_right₀ (by norm_num) (by norm_num)
  have tiny : (2 : ℚ) ^ (-10 : ℤ) ≤ 1 / 50 := by norm_num
  have rounded := (result.share finite (normal.trans (by linarith))).1
  linarith

theorem deviation_le (valid : 1 ≤ window) (proper : sigma.IsProper) (h : sigma.deviation window = .ok s)
    (finite : isFinite s = true) (large : 2 ^ (-500 : ℤ) ≤ ratio s) :
    ratio s ≤ 100003 / 100000 * (window / sigma.size) := by
  obtain ⟨w, -, upper, result⟩ := isResult_deviation valid proper h
  have calculated : w / sigma.size ≤ 100001 / 100000 * (window / sigma.size) := by
    rw [← mul_div_assoc]
    exact div_le_div_of_nonneg_right upper proper.size_pos.le
  have normal : (2 : ℚ) ^ (-1022 : ℤ) ≤ w / sigma.size := by
    by_contra tiny
    have most := result.le finite (isDouble_zpow (by norm_num) (by norm_num)) (not_le.mp tiny).le
    have order : (2 : ℚ) ^ (-1022 : ℤ) < 2 ^ (-500 : ℤ) := zpow_lt_zpow_right₀ (by norm_num) (by norm_num)
    exact absurd (large.trans most) (not_le.mpr order)
  have rounded := (result.share finite normal).2
  have span := proper.size_pos
  have pos : (0 : ℚ) < window := by exact_mod_cast valid
  have deviation : 0 < window / sigma.size := by positivity
  linarith

end Span

/-! ### The divisor of an exponent -/

section Divisor
variable {s : Float}

theorem isNaN_divisor (number : isNaN s = false) : isNaN (2.0 * s * s) = false := by
  have doubled : isNaN (2.0 * s) = false := by
    rw [← Bool.not_eq_true, isNaN_mul_iff]
    rintro (broken | broken | ⟨infinite, -⟩ | ⟨zero, -⟩)
    · cases broken
    · rw [number] at broken
      cases broken
    · cases infinite.1
    · cases zero
  rw [← Bool.not_eq_true, isNaN_mul_iff, doubled, number]
  rintro (broken | broken | ⟨infinite, zero⟩ | ⟨zero, infinite⟩)
  · cases broken
  · cases broken
  · obtain ⟨finite, none⟩ := isZero_iff_ratio.mp zero
    have product := (isResult_mul (x := 2.0) rfl finite).isWithin (c := 0) isDouble_zero
      (by rw [none, mul_zero, abs_zero])
    exact absurd product.1 (Bool.eq_false_iff.mp infinite.1)
  · have finite := (isFinite_of_mul (isZero_iff_ratio.mp zero).1).2
    exact absurd finite (Bool.eq_false_iff.mp infinite.1)

/-- Twice the square of a deviation that is not too small is rounded twice. -/
theorem divisor_bounds (finite : isFinite (2.0 * s * s) = true) (large : 2 ^ (-500 : ℤ) ≤ ratio s) :
    2 * (99999 / 100000) ^ 2 * ratio s ^ 2 ≤ ratio (2.0 * s * s) ∧
      ratio (2.0 * s * s) ≤ 2 * (100001 / 100000) ^ 2 * ratio s ^ 2 := by
  have ⟨doubled, single⟩ := isFinite_of_mul finite
  have pos : 0 < ratio s := lt_of_lt_of_le (by positivity) large
  have first := isResult_mul (x := 2.0) rfl single
  rw [ratio_two] at first
  have order : (2 : ℚ) ^ (-1022 : ℤ) ≤ 2 ^ (-500 : ℤ) := zpow_le_zpow_right₀ (by norm_num) (by norm_num)
  have ⟨lower, upper⟩ := first.share doubled (by linarith)
  have least : (2 : ℚ) ^ (-500 : ℤ) ≤ ratio (2.0 * s) := by linarith
  have product : (2 : ℚ) ^ (-1022 : ℤ) ≤ ratio (2.0 * s) * ratio s := by
    calc (2 : ℚ) ^ (-1022 : ℤ)
      _ ≤ 2 ^ (-500 : ℤ) * 2 ^ (-500 : ℤ) := by
        rw [← zpow_add₀ (by norm_num)]
        exact zpow_le_zpow_right₀ (by norm_num) (by norm_num)
      _ ≤ ratio (2.0 * s) * ratio s := mul_le_mul least large (by positivity) (by linarith)
  have ⟨lower', upper'⟩ := (isResult_mul doubled single).share finite product
  constructor
  · calc 2 * (99999 / 100000) ^ 2 * ratio s ^ 2
      _ = 99999 / 100000 * (99999 / 100000 * (2 * ratio s) * ratio s) := by ring
      _ ≤ 99999 / 100000 * (ratio (2.0 * s) * ratio s) := by gcongr
      _ ≤ ratio (2.0 * s * s) := lower'
  · calc ratio (2.0 * s * s)
      _ ≤ 100001 / 100000 * (ratio (2.0 * s) * ratio s) := upper'
      _ ≤ 100001 / 100000 * (100001 / 100000 * (2 * ratio s) * ratio s) := by gcongr
      _ = 2 * (100001 / 100000) ^ 2 * ratio s ^ 2 := by ring

theorem divisor_small (finite : isFinite (2.0 * s * s) = true) (nonneg : 0 ≤ ratio s)
    (small : ratio s ≤ 2 ^ (-500 : ℤ)) : ratio (2.0 * s * s) ≤ 2 ^ (-999 : ℤ) := by
  have ⟨doubled, single⟩ := isFinite_of_mul finite
  have first := isResult_mul (x := 2.0) rfl single
  rw [ratio_two] at first
  have power : (2 : ℚ) * 2 ^ (-500 : ℤ) = 2 ^ (-499 : ℤ) := by rw [← zpow_one_add₀ (by norm_num)]; norm_num
  have upper := first.le doubled (isDouble_zpow (z := -499) (by norm_num) (by norm_num)) (by linarith)
  refine (isResult_mul doubled single).le finite (isDouble_zpow (by norm_num) (by norm_num)) ?_
  calc ratio (2.0 * s) * ratio s
    _ ≤ 2 ^ (-499 : ℤ) * 2 ^ (-500 : ℤ) := mul_le_mul upper small nonneg (by positivity)
    _ = 2 ^ (-999 : ℤ) := by rw [← zpow_add₀ (by norm_num)]; norm_num

theorem divisor_nonneg (finite : isFinite (2.0 * s * s) = true) (nonneg : 0 ≤ ratio s) :
    0 ≤ ratio (2.0 * s * s) := by
  have ⟨doubled, single⟩ := isFinite_of_mul finite
  have first := isResult_mul (x := 2.0) rfl single
  rw [ratio_two] at first
  have above := first.ge doubled isDouble_zero (by linarith)
  exact (isResult_mul doubled single).ge finite isDouble_zero (mul_nonneg above nonneg)

end Divisor

/-! ### Exponents -/

section Exponent
variable {sigma : Span Float} {window d : Int} {s x : Float}

theorem one_le_sq (apart : d ≠ 0) : (1 : ℚ) ≤ (d : ℚ) ^ 2 := by
  exact_mod_cast (one_le_sq_iff_one_le_abs d).mpr (Int.one_le_abs apart)

theorem sq_le_deviations (span : 0 < sigma.size) (near : (d * sigma.size) ^ 2 ≤ 1480 * (window : ℚ) ^ 2) :
    (d : ℚ) ^ 2 ≤ 1480 * (window / sigma.size) ^ 2 := by
  rw [div_pow, ← mul_div_assoc, le_div_iff₀ (by positivity), ← mul_pow]
  exact near

theorem square_bounds (apart : d ≠ 0) (small : ¬IsTooLarge (d * d)) :
    ratio (ofInt (-(d * d))) = -ratio (ofInt (d * d)) ∧ 99999 / 100000 * (d : ℚ) ^ 2 ≤ ratio (ofInt (d * d)) ∧
      ratio (ofInt (d * d)) ≤ 100001 / 100000 * (d : ℚ) ^ 2 := by
  have pos : 0 < d * d := mul_self_pos.mpr apart
  have one : (1 : ℚ) ≤ (d * d : Int) := by exact_mod_cast pos
  have square : ((d * d : Int) : ℚ) = (d : ℚ) ^ 2 := by push_cast; ring
  have bounds := (isResult_ofInt pos.le).share ((isFinite_ofInt _).mpr small)
    ((zpow_le_one_of_nonpos₀ (by norm_num) (by norm_num)).trans one)
  rw [square] at bounds
  exact ⟨ratio_ofInt_neg pos small, bounds⟩

/-- Up to √1480 deviations from the peak an exponent is at least -744. -/
theorem isWithin_bellExponent (valid : 1 ≤ window) (proper : sigma.IsProper) (h : sigma.deviation window = .ok s)
    (read : bellExponent? s d = .ok x) (near : (d * sigma.size) ^ 2 ≤ 1480 * (window : ℚ) ^ 2) : IsWithin 744 x := by
  obtain ⟨small, filled, rfl⟩ := bellExponent?_ok_iff.mp read
  have dividend : isFinite (ofInt (-(d * d)) : Float) = true :=
    (isFinite_ofInt _).mpr ((isTooLarge_neg _).not.mpr small)
  by_cases finite : isFinite (2.0 * s * s) = true
  · have divides : ratio (2.0 * s * s) ≠ 0 := by
      intro zero
      rw [isZero_iff_ratio.mpr ⟨finite, zero⟩] at filled
      cases filled
    refine (isResult_div dividend finite divides).isWithin (isDouble_intCast (n := 744) (by norm_num)) ?_
    by_cases apart : d = 0
    · subst apart
      have zero : ratio (ofInt (-(0 * 0))) = 0 := by
        have exact := (ofInt_exact (n := 0) (by norm_num) (by norm_num)).2
        rwa [Int.cast_zero] at exact
      rw [zero, zero_div, abs_zero]
      norm_num
    -- a lag beside the peak is so near only if a deviation is no small share of a bar, so nothing underflows
    · obtain ⟨turned, least, most⟩ := square_bounds apart small
      have lag := one_le_sq apart
      have span := proper.size_pos
      have pos : (0 : ℚ) < window := by exact_mod_cast valid
      have wide := sq_le_deviations proper.size_pos near
      have deviation : (1 : ℚ) / 40 ≤ window / sigma.size := by
        refine le_of_sq_le_sq ?_ (by positivity)
        linarith
      have calculated := Span.le_deviation valid proper h (isFinite_of_mul finite).2 deviation
      have tiny : (2 : ℚ) ^ (-500 : ℤ) ≤ 2 ^ (-10 : ℤ) := zpow_le_zpow_right₀ (by norm_num) (by norm_num)
      have ⟨divisor, _⟩ := divisor_bounds finite (tiny.trans (by norm_num; linarith))
      have square : (99998 / 100000 * (window / sigma.size)) ^ 2 ≤ ratio s ^ 2 :=
        pow_le_pow_left₀ (by linarith) calculated 2
      have above : 0 < ratio s := by linarith
      have positive : 0 < ratio (2.0 * s * s) := lt_of_lt_of_le (by positivity) divisor
      rw [turned, abs_div, abs_neg, abs_of_pos positive, abs_of_nonneg (by linarith), div_le_iff₀ positive]
      linarith
  -- an infinite divisor leaves an exponent of zero
  · obtain ⟨w, -, -, result⟩ := Span.isResult_deviation valid proper h
    have infinite : IsInfinite (2.0 * s * s) := ⟨Bool.eq_false_iff.mpr finite, isNaN_divisor result.number⟩
    have ⟨bounded, zero⟩ := isZero_iff_ratio.mp (isZero_div dividend infinite)
    exact ⟨bounded, by rw [zero, abs_zero]; norm_num⟩

theorem deviations_le_sq (span : 0 < sigma.size) (far : 1495 * (window : ℚ) ^ 2 ≤ (d * sigma.size) ^ 2) :
    1495 * (window / sigma.size) ^ 2 ≤ (d : ℚ) ^ 2 := by
  rw [div_pow, ← mul_div_assoc, div_le_iff₀ (by positivity), ← mul_pow]
  exact far

/-- Where the square of a lag can be calculated, so can that of a deviation of which there are √1495 up to it. -/
theorem isFinite_divisor (valid : 1 ≤ window) (proper : sigma.IsProper) (h : sigma.deviation window = .ok s)
    (small : ¬IsTooLarge (d * d)) (far : 1495 * (window : ℚ) ^ 2 ≤ (d * sigma.size) ^ 2) :
    isFinite (2.0 * s * s) = true := by
  obtain ⟨w, lower, upper, result⟩ := Span.isResult_deviation valid proper h
  have span := proper.size_pos
  have pos : (0 : ℚ) < window := by exact_mod_cast valid
  have deviations := deviations_le_sq span far
  have square : (d : ℚ) ^ 2 ≤ 2 ^ 1024 := by
    have top : (d * d).natAbs ≤ 2 ^ 1024 := (not_le.mp small).le.trans (Nat.sub_le _ _)
    have exact : ((d * d).natAbs : ℚ) = (d : ℚ) ^ 2 := by
      rw [Nat.cast_natAbs, abs_of_nonneg (mul_self_nonneg d)]
      push_cast
      ring
    rw [← exact]
    exact_mod_cast top
  -- the lag is below 2 ^ 512, and √1495 deviations are more than 2 ^ 5
  have deviation : window / sigma.size ≤ 2 ^ 507 := by
    refine le_of_sq_le_sq ?_ (by positivity)
    have power : (2 : ℚ) ^ 1024 = 1024 * (2 ^ 507) ^ 2 := by
      rw [← pow_mul, show (1024 : ℚ) = 2 ^ 10 by norm_num, ← pow_add]
    have nonneg : (0 : ℚ) ≤ (2 ^ 507) ^ 2 := by positivity
    rw [power] at square
    generalize ((2 : ℚ) ^ 507) ^ 2 = most at square nonneg ⊢
    linarith
  have spread : IsWithin (2 ^ 508) s := by
    refine result.isWithin (isDouble_pow (by norm_num)) ?_
    have width : 0 < w := lt_of_lt_of_le (by positivity) lower
    have calculated : w / sigma.size ≤ 100001 / 100000 * (window / sigma.size) := by
      rw [← mul_div_assoc]
      exact div_le_div_of_nonneg_right upper span.le
    have power : (2 : ℚ) ^ 508 = 2 * 2 ^ 507 := by rw [← pow_succ']
    have nonneg : (0 : ℚ) ≤ 2 ^ 507 := by positivity
    rw [abs_of_pos (by positivity), power]
    generalize (2 : ℚ) ^ 507 = most at deviation nonneg ⊢
    linarith
  have two : IsWithin (2 ^ 1) 2.0 := ⟨rfl, by rw [ratio_two, abs_two, pow_one]⟩
  have doubled := two.mul spread (by rw [← pow_add]; exact isDouble_pow (by norm_num))
  rw [← pow_add] at doubled
  refine (doubled.mul spread ?_).1
  rw [← pow_add, ← zpow_natCast]
  exact isDouble_zpow (by norm_num) (by norm_num)

/-- From √1495 deviations from the peak on an exponent is at most -747. -/
theorem bellExponent_le (valid : 1 ≤ window) (proper : sigma.IsProper) (h : sigma.deviation window = .ok s)
    (read : bellExponent? s d = .ok x) (far : 1495 * (window : ℚ) ^ 2 ≤ (d * sigma.size) ^ 2) :
    isNaN x = false ∧ (isFinite x = true → ratio x ≤ -747) := by
  obtain ⟨small, filled, rfl⟩ := bellExponent?_ok_iff.mp read
  have dividend : isFinite (ofInt (-(d * d)) : Float) = true :=
    (isFinite_ofInt _).mpr ((isTooLarge_neg _).not.mpr small)
  have finite := isFinite_divisor valid proper h small far
  have divides : ratio (2.0 * s * s) ≠ 0 := by
    intro zero
    rw [isZero_iff_ratio.mpr ⟨finite, zero⟩] at filled
    cases filled
  have quotient := isResult_div dividend finite divides
  refine ⟨quotient.number, fun bounded => ?_⟩
  refine quotient.le bounded (c := -747) (isDouble_intCast (n := -747) (by norm_num)) ?_
  have span := proper.size_pos
  have pos : (1 : ℚ) ≤ window := by exact_mod_cast valid
  have deviations := deviations_le_sq span far
  have apart : d ≠ 0 := by
    rintro rfl
    rw [Int.cast_zero, zero_mul, zero_pow two_ne_zero] at far
    nlinarith
  obtain ⟨turned, least, -⟩ := square_bounds apart small
  have lag := one_le_sq apart
  have nonneg := Span.deviation_nonneg valid proper h (isFinite_of_mul finite).2
  have positive : 0 < ratio (2.0 * s * s) := lt_of_le_of_ne (divisor_nonneg finite nonneg) divides.symm
  rw [turned, neg_div, neg_le_neg_iff, le_div_iff₀ positive]
  rcases le_total (ratio s) (2 ^ (-500 : ℤ)) with tiny | large
  -- the divisor may have lost all its bits, but then the quotient is far beyond the bound
  · have divisor := divisor_small finite nonneg tiny
    have power : (2 : ℚ) ^ (-999 : ℤ) ≤ 2 ^ (-10 : ℤ) := zpow_le_zpow_right₀ (by norm_num) (by norm_num)
    have share : (2 : ℚ) ^ (-10 : ℤ) ≤ 1 / 1000 := by norm_num
    have most := divisor.trans (power.trans share)
    linarith
  · have calculated := Span.deviation_le valid proper h (isFinite_of_mul finite).2 large
    have square : ratio s ^ 2 ≤ (100003 / 100000 * (window / sigma.size)) ^ 2 := pow_le_pow_left₀ nonneg calculated 2
    have ⟨_, divisor⟩ := divisor_bounds finite large
    linarith

end Exponent

end ChartOverlay
