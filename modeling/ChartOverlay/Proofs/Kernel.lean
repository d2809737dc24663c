import Mathlib
import ChartOverlay.Proofs.Bell
import ChartOverlay.Proofs.Training

/-!
# Where a smoothing kernel vanishes

The weights that exist at an early bar may all be so far from the peak of the curve that they underflow, and the
smoothed value is then zero, by a case of its own. Whether they do depends on window, offset and span together
(`alma_kernel`): a lag counts while it is less than √1480 deviations from the peak, hence from the bar of the peak on
the kernel never vanishes, and for a window of at most 38 deviations nowhere. The exponential is that of any library
that is exact enough to tell zero from the least double.
-/

namespace ChartOverlay

open Arith Double

/-! ### Exponentials -/

/-- What an exponential of doubles is documented to be: not below zero, not zero where it is at least the least double
above zero, and zero where it is not even a quarter of that. -/
structure IsExponential (exp : Float → Float) : Prop where
  nonneg : ∀ x, lt (exp x) 0.0 = false
  kept : ∀ x, isFinite x = true → (2 : ℝ) ^ (-1074 : ℤ) ≤ Real.exp (ratio x) → isZero (exp x) = false
  lost : ∀ x, isNaN x = false → lt 0.0 x = false →
    (isFinite x = true → Real.exp (ratio x) ≤ (2 : ℝ) ^ (-1076 : ℤ)) → isZero (exp x) = true

theorem two_zpow_eq_exp (n : ℤ) : (2 : ℝ) ^ n = Real.exp (Real.log 2 * n) := by
  rw [← Real.rpow_intCast, Real.rpow_def_of_pos two_pos]

theorem le_exp {x : Float} (h : IsWithin 744 x) : (2 : ℝ) ^ (-1074 : ℤ) ≤ Real.exp (ratio x) := by
  have lower : (-744 : ℝ) ≤ ratio x := by exact_mod_cast (abs_le.mp h.2).1
  have log := Real.log_two_gt_d9
  rw [two_zpow_eq_exp, Real.exp_le_exp]
  push_cast
  linarith

theorem exp_le {x : Float} (h : ratio x ≤ -747) : Real.exp (ratio x) ≤ (2 : ℝ) ^ (-1076 : ℤ) := by
  have upper : (ratio x : ℝ) ≤ -747 := by exact_mod_cast h
  have log := Real.log_two_lt_d9
  rw [two_zpow_eq_exp, Real.exp_le_exp]
  push_cast
  linarith

/-- An exponential that knows of each number only whether its power is a double above zero. -/
def bluntExp (x : Float) : Float := if isFinite x = true ∧ -1491 / 2 < ratio x then 1.0 else 0.0

theorem isExponential_bluntExp : IsExponential bluntExp where
  nonneg x := by
    unfold bluntExp
    split <;> rfl
  kept x finite large := by
    have least : (-745 : ℝ) ≤ ratio x := by
      have log := Real.log_two_lt_d9
      rw [two_zpow_eq_exp, Real.exp_le_exp] at large
      push_cast at large
      linarith
    have above : -745 ≤ ratio x := by exact_mod_cast least
    rw [bluntExp, if_pos ⟨finite, by linarith⟩]
    rfl
  lost x _ _ small := by
    rw [bluntExp, if_neg]
    · rfl
    · rintro ⟨finite, above⟩
      have least : (-1491 / 2 : ℝ) < ratio x := by exact_mod_cast above
      have most := small finite
      have log := Real.log_two_gt_d9
      rw [two_zpow_eq_exp, Real.exp_le_exp] at most
      push_cast at most
      linarith

/-! ### Kernels -/

section Kernel
variable {α : Type} [Arith α]

/-- The sum of the weights that exist at a bar. -/
def kernelSum (weights : List α) (i : Nat) : α := total (weights.take (i + 1))

/-- The weights of lags from a peak, under a curve of a deviation. -/
structure IsKernel (exp : α → α) (s : α) (peak : Int) (weights : List α) : Prop where
  weight : ∀ (k : Nat) w, weights[k]? = some w → ∃ x, bellExponent? s (k - peak) = .ok x ∧ exp x = w

theorem alma_run_iff {values answers : List α} {window : Int} {offset : α} {sigma : Span α} :
    alma values window offset sigma = .ok answers ↔ ∃ width peak s weights,
      ofInt? (window - 1) = .ok width ∧ floor? (offset * width) = .ok peak ∧ sigma.deviation window = .ok s ∧
      bellWeights (min window values.length).toNat peak s = .ok weights ∧
      answers = (List.range values.length).map fun i => weightedMean weights (values.take (i + 1)).reverse := by
  constructor
  · intro h
    obtain ⟨width, whole, h⟩ := bind_ok h
    obtain ⟨peak, floored, h⟩ := bind_ok h
    obtain ⟨s, deviates, h⟩ := bind_ok h
    obtain ⟨weights, weighed, h⟩ := bind_ok h
    exact ⟨width, peak, s, weights, whole, floored, deviates, weighed, (pure_ok h).symm⟩
  · rintro ⟨width, peak, s, weights, whole, floored, deviates, weighed, rfl⟩
    rw [alma, whole, ok_bind, floored, ok_bind, deviates, ok_bind, weighed]
    rfl

theorem bellWeight_ok {s x : α} {d : Int} (h : bellExponent? s d = .ok x) : bellWeight s d = .ok (exp x) := by
  rw [bellWeight_eq, h]
  rfl

theorem bellWeights_ok {n : Nat} {peak : Int} {s : α} {weights : List α} (h : bellWeights n peak s = .ok weights) :
    weights.length = n ∧ IsKernel exp s peak weights := by
  have each := mapM_ok_iff.mp h
  have size := each.length_eq
  rw [List.length_range] at size
  refine ⟨size.symm, ⟨fun k w found => ?_⟩⟩
  obtain ⟨inside, rfl⟩ := List.getElem?_eq_some_iff.mp found
  have weighed := (List.forall₂_iff_get.mp each).2 k (by rw [List.length_range]; omega) inside
  rw [List.get_eq_getElem, List.get_eq_getElem, List.getElem_range, bellWeight_eq] at weighed
  exact map_ok weighed

theorem weightedMean_eq (weights : List α) {values : List α} {i : Nat} (inside : i < values.length) :
    weightedMean weights (values.take (i + 1)).reverse =
      if isZero (kernelSum weights i) then 0.0
      else total (List.zipWith (fun x w => x * w) (values.take (i + 1)).reverse (weights.take (i + 1))) /
        kernelSum weights i := by
  have size : (values.take (i + 1)).reverse.length = i + 1 := by
    rw [List.length_reverse, List.length_take]
    omega
  unfold weightedMean kernelSum
  rw [size]

end Kernel

/-! ### Peaks -/

section Peak
variable {window peak : Int} {offset width : Float}

theorem floor_eq (x : Float) : Arith.floor x = ⌊ratio x⌋ := by
  show (toQuotient x).1.fdiv (toQuotient x).2 = _
  rw [ratio, Rat.floor_intCast_div_natCast, Int.fdiv_eq_ediv_of_nonneg _ (Int.natCast_nonneg _)]

/-- The peak is at a fraction of the last lag, which is rounded if it has more than 53 bits. -/
theorem peak_bounds (valid : 1 ≤ window) (finite : isFinite offset = true) (least : 0 ≤ ratio offset)
    (most : ratio offset ≤ 1) (whole : ofInt? (window - 1) = .ok width) (floored : floor? (offset * width) = .ok peak) :
    0 ≤ peak ∧ (peak : ℚ) ≤ 100001 / 100000 * (window - 1) ∧ (window ≤ 2 ^ 53 → peak < window) := by
  obtain ⟨small, rfl⟩ := ofInt?_ok_iff.mp whole
  obtain ⟨bounded, rfl⟩ := floor?_ok_iff.mp floored
  have span := (isFinite_ofInt (window - 1)).mpr small
  have result := isResult_ofInt (n := window - 1) (by omega)
  have lags : (0 : ℚ) ≤ (window - 1 : Int) := by exact_mod_cast (by omega : 0 ≤ window - 1)
  have nonneg : 0 ≤ ratio (ofInt (window - 1)) := result.ge span isDouble_zero lags
  have product := isResult_mul finite span
  have lower := product.ge bounded isDouble_zero (mul_nonneg least nonneg)
  have upper := product.le bounded (isDouble_ratio span) (mul_le_of_le_one_left nonneg most)
  rw [floor_eq]
  have below := (Int.floor_le (ratio (offset * ofInt (window - 1)))).trans upper
  refine ⟨Int.floor_nonneg.mpr lower, ?_, ?_⟩
  · refine below.trans ?_
    rcases Int.lt_or_eq_of_le valid with wide | rfl
    · have one : (1 : ℚ) ≤ (window - 1 : Int) := by exact_mod_cast (by omega : 1 ≤ window - 1)
      have share := (result.share span ((zpow_le_one_of_nonpos₀ (by norm_num) (by norm_num)).trans one)).2
      rwa [Int.cast_sub, Int.cast_one] at share
    · have exact := (ofInt_exact (n := 1 - 1) (by norm_num) (by norm_num)).2
      rw [exact]
      norm_num
  · intro short
    have exact := (ofInt_exact (n := window - 1) (by omega) (by omega)).2
    rw [exact] at below
    have last : ⌊ratio (offset * ofInt (window - 1))⌋ ≤ window - 1 := by exact_mod_cast below
    omega

end Peak

/-! ### Weights -/

section Weights
variable {exp : Float → Float} {sigma : Span Float} {window d : Int} {s x : Float}

theorem weight_kept (law : IsExponential exp) (valid : 1 ≤ window) (proper : sigma.IsProper)
    (h : sigma.deviation window = .ok s) (read : bellExponent? s d = .ok x)
    (near : (d * sigma.size) ^ 2 ≤ 1480 * (window : ℚ) ^ 2) : isZero (exp x) = false := by
  have within := isWithin_bellExponent valid proper h read near
  exact law.kept x within.1 (le_exp within)

theorem weight_lost (law : IsExponential exp) (valid : 1 ≤ window) (proper : sigma.IsProper)
    (h : sigma.deviation window = .ok s) (read : bellExponent? s d = .ok x)
    (far : 1495 * (window : ℚ) ^ 2 ≤ (d * sigma.size) ^ 2) : isZero (exp x) = true := by
  obtain ⟨number, bound⟩ := bellExponent_le valid proper h read far
  exact law.lost x number (bellExponent?_not_zero_lt read) fun finite => exp_le (bound finite)

variable {peak : Int} {weights : List Float}

theorem kernelSum_isZero_iff (law : IsExponential exp) (kernel : IsKernel exp s peak weights) (i : Nat) :
    isZero (kernelSum weights i) = true ↔ ∀ w ∈ weights.take (i + 1), isZero w = true := by
  refine isZero_total_iff fun w member => ?_
  obtain ⟨k, found⟩ := List.mem_iff_getElem?.mp (List.mem_of_mem_take member)
  obtain ⟨x, -, rfl⟩ := kernel.weight k w found
  exact law.nonneg x

end Weights

/-! ### Kernels of an average -/

section Support
variable {exp : Float → Float} {sigma : Span Float} {window peak : Int} {s : Float} {weights : List Float} {n i : Nat}

theorem kernelSum_kept (law : IsExponential exp) (valid : 1 ≤ window) (proper : sigma.IsProper)
    (h : sigma.deviation window = .ok s) (kernel : IsKernel exp s peak weights)
    (size : weights.length = (min window n).toNat) (bar : i < n) {k : Nat} (first : k ≤ i) (early : k < window)
    (near : (((k - peak : Int) : ℚ) * sigma.size) ^ 2 ≤ 1480 * (window : ℚ) ^ 2) :
    isZero (kernelSum weights i) = false := by
  have inside : k < weights.length := by omega
  have there := List.getElem?_eq_getElem inside
  obtain ⟨x, read, same⟩ := kernel.weight k _ there
  have used : weights[k] ∈ weights.take (i + 1) :=
    List.mem_of_getElem? ((List.getElem?_take_of_lt (by omega)).trans there)
  -- not one weight below zero makes up for that of the lag
  rw [← Bool.not_eq_true, kernelSum_isZero_iff law kernel]
  intro none
  have kept := weight_kept law valid proper h read near
  rw [same, none _ used] at kept
  cases kept

theorem kernelSum_lost (law : IsExponential exp) (valid : 1 ≤ window) (proper : sigma.IsProper)
    (h : sigma.deviation window = .ok s) (kernel : IsKernel exp s peak weights)
    (size : weights.length = (min window n).toNat)
    (far : ∀ k : Nat, k ≤ i → k < window → 1495 * (window : ℚ) ^ 2 ≤ (((k - peak : Int) : ℚ) * sigma.size) ^ 2) :
    isZero (kernelSum weights i) = true := by
  rw [kernelSum_isZero_iff law kernel]
  intro w member
  obtain ⟨k, found⟩ := List.mem_iff_getElem?.mp member
  have early := (List.getElem?_eq_some_iff.mp found).1
  rw [List.length_take] at early
  rw [List.getElem?_take_of_lt (by omega)] at found
  obtain ⟨x, read, rfl⟩ := kernel.weight k w found
  exact weight_lost law valid proper h read (far k (by omega) (by omega))

/-- A window of at most 38 deviations is so short that even its first lag counts. -/
theorem first_near (valid : 1 ≤ window) (proper : sigma.IsProper) (nonneg : 0 ≤ peak)
    (bound : (peak : ℚ) ≤ 100001 / 100000 * (window - 1)) (narrow : sigma.size ≤ 38) :
    ((((0 : Nat) - peak : Int) : ℚ) * sigma.size) ^ 2 ≤ 1480 * (window : ℚ) ^ 2 := by
  have pos : (1 : ℚ) ≤ window := by exact_mod_cast valid
  have start : (0 : ℚ) ≤ peak := by exact_mod_cast nonneg
  have span := proper.size_pos
  have reach : (peak : ℚ) * sigma.size ≤ 100001 / 100000 * window * 38 := by
    refine mul_le_mul ?_ narrow span.le (by positivity)
    linarith
  have square := pow_le_pow_left₀ (by positivity) reach 2
  have turned : (((0 : Nat) - peak : Int) : ℚ) * sigma.size = -(peak * sigma.size) := by
    push_cast
    ring
  rw [turned, neg_sq]
  linarith [sq_nonneg (window : ℚ)]

end Support

/-- At which bars the kernel vanishes, for a window of so many deviations, and what is smoothed there: where it does
not vanish, the values up to the bar are averaged under it. -/
structure KernelStands (window peak : Int) (span : ℚ) (values answers weights : List Float) : Prop where
  answers : ∀ i < values.length, answers[i]? = some (
    if isZero (kernelSum weights i) then 0.0
    else total (List.zipWith (fun x w => x * w) (values.take (i + 1)).reverse (weights.take (i + 1))) /
      kernelSum weights i)
  vanishes_iff : ∀ i, isZero (kernelSum weights i) = true ↔ ∀ w ∈ weights.take (i + 1), isZero w = true
  near : ∀ i < values.length, ∀ k : Nat, k ≤ i → k < window →
    (((k - peak : Int) : ℚ) * span) ^ 2 ≤ 1480 * (window : ℚ) ^ 2 → isZero (kernelSum weights i) = false
  far : ∀ i, (∀ k : Nat, k ≤ i → k < window → 1495 * (window : ℚ) ^ 2 ≤ (((k - peak : Int) : ℚ) * span) ^ 2) →
    isZero (kernelSum weights i) = true
  peak : ∀ i < values.length, peak ≤ i → peak < window → isZero (kernelSum weights i) = false
  narrow : span ≤ 38 → ∀ i < values.length, isZero (kernelSum weights i) = false

section Smoothed
variable {exp log : Float → Float} {values answers weights : List Float} {window peak : Int} {offset s : Float}
  {sigma : Span Float}

theorem kernelStands (law : IsExponential exp) (valid : 1 ≤ window) (proper : sigma.IsProper)
    (h : sigma.deviation window = .ok s) (kernel : IsKernel exp s peak weights)
    (size : weights.length = (min window values.length).toNat) (nonneg : 0 ≤ peak)
    (bound : (peak : ℚ) ≤ 100001 / 100000 * (window - 1)) :
    KernelStands window peak sigma.size values
      ((List.range values.length).map fun i => weightedMean weights (values.take (i + 1)).reverse) weights where
  answers i bar := by
    rw [List.getElem?_map, List.getElem?_range bar, Option.map_some, weightedMean_eq weights bar]
  vanishes_iff := kernelSum_isZero_iff law kernel
  near i bar k first early near := kernelSum_kept law valid proper h kernel size bar first early near
  far i far := kernelSum_lost law valid proper h kernel size far
  peak i bar late early := by
    refine kernelSum_kept law valid proper h kernel size bar (k := peak.toNat) (by omega) (by omega) ?_
    have zero : ((peak.toNat : Int) - peak : Int) = 0 := by omega
    rw [zero, Int.cast_zero, zero_mul, zero_pow two_ne_zero]
    positivity
  narrow narrow i bar :=
    kernelSum_kept law valid proper h kernel size bar (k := 0) (Nat.zero_le i) (by omega)
      (first_near valid proper nonneg bound narrow)

/-- Under a curve of a 64th of a bar two weights exist, and only that of its peak counts. -/
theorem narrow_ok (exp log : Float → Float) :
    (Span.value 128.0).deviation 2 = .ok (0.015625 : Float) ∧ floor? (1.0 * ofInt (2 - 1) : Float) = .ok 1 ∧
      bellWeights (α := DoubleWith exp log) 2 1 (0.015625 : Float) = .ok [exp (-2048.0), exp 0.0] := by
  have first : bellExponent? (0.015625 : Float) ((0 : Nat) - 1) = .ok (-2048.0) := rfl
  have second : bellExponent? (0.015625 : Float) ((1 : Nat) - 1) = .ok 0.0 := rfl
  refine ⟨?_, rfl, mapM_ok_iff.mpr (.cons (bellWeight_ok first) (.cons (bellWeight_ok second) .nil))⟩
  have whole : (ofInt? 2 : Except Fault Float) = .ok 2.0 := rfl
  rw [Span.deviation, whole, ok_bind]
  exact div?_ok_iff.mpr ⟨rfl, by decide +kernel⟩

/-- Of two closes the first is lost under so narrow a curve, and the second is averaged with it. -/
theorem alma_narrow (exp log : Float → Float) :
    alma (α := DoubleWith exp log) [(3.0 : Float), (5.0 : Float)] 2 (1.0 : Float) (.value (128.0 : Float)) =
      .ok [weightedMean [exp (-2048.0), exp 0.0] [3.0], weightedMean [exp (-2048.0), exp 0.0] [5.0, 3.0]] := by
  obtain ⟨deviates, floored, weighed⟩ := narrow_ok exp log
  have whole : (ofInt? (2 - 1) : Except Fault Float) = .ok (ofInt (2 - 1)) := rfl
  exact alma_run_iff.mpr ⟨_, _, _, _, whole, floored, deviates, weighed, rfl⟩

/-- The kernel vanishes only where every weight that exists underflows, and there the smoothed value is zero. It never
does from the bar of the peak on, or for a window of at most 38 deviations. -/
theorem alma_kernel (law : IsExponential exp) (valid : 1 ≤ window) (finite : isFinite offset = true)
    (least : 0 ≤ ratio offset) (most : ratio offset ≤ 1) (proper : sigma.IsProper)
    (ran : alma (α := DoubleWith exp log) values window offset sigma = .ok answers) :
    ∃ s peak weights, sigma.deviation window = .ok s ∧ floor? (offset * ofInt (window - 1)) = .ok peak ∧
      0 ≤ peak ∧ (window ≤ 2 ^ 53 → peak < window) ∧ weights.length = (min window values.length).toNat ∧
      IsKernel exp s peak weights ∧ KernelStands window peak sigma.size values answers weights := by
  obtain ⟨width, peak, s, weights, whole, floored, deviates, weighed, rfl⟩ := alma_run_iff.mp ran
  obtain ⟨size, kernel⟩ := bellWeights_ok weighed
  obtain ⟨nonneg, bound, inside⟩ := peak_bounds valid finite least most whole floored
  obtain ⟨-, rfl⟩ := ofInt?_ok_iff.mp whole
  have deviates : sigma.deviation window = .ok s := by cases sigma <;> exact deviates
  have kernel : IsKernel exp s peak weights := ⟨kernel.weight⟩
  exact ⟨s, peak, weights, deviates, floored, nonneg, inside, size, kernel,
    kernelStands law valid proper deviates kernel size nonneg bound⟩

theorem alma_kernel_of_narrow : ∃ s peak weights, IsKernel bluntExp s peak weights ∧
    KernelStands 2 peak 128 [3.0, 5.0] [0.0, 3.0] weights ∧ isZero (kernelSum weights 0) = true ∧
    isZero (kernelSum weights 1) = false := by
  have ran : alma (α := DoubleWith bluntExp id) [(3.0 : Float), (5.0 : Float)] 2 (1.0 : Float)
      (.value (128.0 : Float)) = .ok [(0.0 : Float), (3.0 : Float)] := by
    have lost : bluntExp (-2048.0) = 0.0 := by decide +kernel
    have kept : bluntExp 0.0 = 1.0 := by decide +kernel
    have averaged : [weightedMean [(0.0 : Float), 1.0] [3.0], weightedMean [0.0, 1.0] [5.0, 3.0]] = [0.0, 3.0] := by
      decide +kernel
    rw [alma_narrow, lost, kept]
    exact congrArg Except.ok averaged
  have span : ratio 128.0 = 128 := ratio_eq_iff (n := 128) |>.mpr rfl
  have proper : (Span.value 128.0).IsProper := ⟨rfl, by rw [span]; norm_num⟩
  obtain ⟨s, peak, weights, -, floored, -, -, -, kernel, stands⟩ :=
    alma_kernel isExponential_bluntExp (by norm_num) rfl (by rw [ratio_one]; norm_num) ratio_one.le proper ran
  obtain rfl : 1 = peak := Except.ok.inj ((narrow_ok bluntExp id).2.1.symm.trans floored)
  rw [Span.size, span] at stands
  have kept := stands.peak 1 (by decide) le_rfl (by norm_num)
  refine ⟨s, 1, weights, kernel, stands, stands.far 0 fun k early _ => ?_, kept⟩
  obtain rfl := Nat.le_zero.mp early
  norm_num

/-- Whatever the exponential is, the kernel vanishes at the first of two bars under a curve of a 64th of a bar. -/
theorem not_kernelSum_kept : ¬∃ exp log : Float → Float, IsExponential exp ∧
    ∀ (values answers weights : List Float) (window peak : Int) (offset sigma s : Float),
      (∀ x ∈ values, isFinite x = true) → 1 ≤ window → isFinite offset = true → 0 ≤ ratio offset → ratio offset ≤ 1 →
      isFinite sigma = true → 0 < ratio sigma →
      alma (α := DoubleWith exp log) values window offset (.value sigma) = .ok answers →
      (Span.value sigma).deviation window = .ok s → floor? (offset * ofInt (window - 1)) = .ok peak →
      bellWeights (α := DoubleWith exp log) (min window values.length).toNat peak s = .ok weights →
      ∀ i < values.length, isZero (kernelSum weights i) = false := by
  rintro ⟨exp, log, law, kept⟩
  obtain ⟨deviates, floored, weighed⟩ := narrow_ok exp log
  have span : ratio 128.0 = 128 := ratio_eq_iff (n := 128) |>.mpr rfl
  have finite : ∀ x ∈ [(3.0 : Float), 5.0], isFinite x = true := by decide +kernel
  have least : 0 ≤ ratio 1.0 := by rw [ratio_one]; norm_num
  have pos : 0 < ratio 128.0 := by rw [span]; norm_num
  have stands := kept [3.0, 5.0] _ _ 2 1 1.0 128.0 0.015625 finite (by norm_num) rfl least ratio_one.le rfl pos
    (alma_narrow exp log) deviates floored weighed 0 (by decide)
  have vanishes : isZero (kernelSum [exp (-2048.0), exp 0.0] 0) = true := by
    have kernel : IsKernel exp 0.015625 1 [exp (-2048.0), exp 0.0] := ⟨(bellWeights_ok weighed).2.weight⟩
    refine (kernelSum_isZero_iff law kernel 0).mpr fun w member => ?_
    obtain rfl := List.mem_singleton.mp member
    have exponent : ratio (-2048.0) = -2048 := ratio_eq_iff (n := -2048) |>.mpr rfl
    exact law.lost _ rfl rfl fun _ => exp_le (by rw [exponent]; norm_num)
  exact Bool.false_ne_true (stands.symm.trans vanishes)

end Smoothed

end ChartOverlay
