import Mathlib
import ChartOverlay.Proofs.Exact
import ChartOverlay.Proofs.RegressionFaults
import ChartOverlay.Proofs.Rescaling

/-!
# Least squares

The regression line comes from a correlation and two deviations, each with a case of its own for a window that does
not vary. Calculated exactly all of that cancels, and what is left is the value of the line with the least squares:
`regressionLine_leastSquares`.
-/

namespace ChartOverlay

open Arith

namespace Exact

/-! ### Lines -/

/-- A line by its slope and its value at zero. -/
@[ext] structure Fit (α : Type) where
  slope : α
  intercept : α

section Lines
variable {α : Type} [Exact α] {xs ys : List α}

def average (xs : List α) : α := xs.sum / xs.length

/-- The sum of the products of what two windows deviate from their averages. -/
def comoment (xs ys : List α) : α := (List.zipWith (fun x y => (x - average xs) * (y - average ys)) xs ys).sum

namespace Fit

def value (l : Fit α) (x : α) : α := l.slope * x + l.intercept

/-- The sum of the squared residuals of values at their positions. -/
def error (l : Fit α) (xs ys : List α) : α := (List.zipWith (fun x y => (y - l.value x) ^ 2) xs ys).sum

/-- No line has a smaller sum of squared residuals. -/
def IsLeastSquares (l : Fit α) (xs ys : List α) : Prop := ∀ other : Fit α, l.error xs ys ≤ other.error xs ys

end Fit

/-- The value at `x` of the one line with the least squares. -/
structure IsFitted (xs ys : List α) (x y : α) : Prop where
  unique : ∃ l : Fit α, (∀ other : Fit α, other.IsLeastSquares xs ys ↔ other = l) ∧ l.value x = y
  centered : y = average ys + comoment xs ys / comoment xs xs * (x - average xs)

/-! ### Moments -/

theorem sum_products (u v : α) (same : xs.length = ys.length) :
    (List.zipWith (fun x y => (x - u) * (y - v)) xs ys).sum =
      (List.zipWith (· * ·) xs ys).sum - u * ys.sum - v * xs.sum + xs.length * (u * v) := by
  induction xs generalizing ys with
  | nil =>
    obtain rfl := List.length_eq_zero_iff.mp same.symm
    simp
  | cons x xs ih =>
    cases ys with
    | nil => cases same
    | cons y ys =>
      simp only [List.zipWith_cons_cons, List.sum_cons, List.length_cons, Nat.cast_add, Nat.cast_one,
        ih (Nat.succ.inj same)]
      ring

theorem comoment_eq (same : xs.length = ys.length) (filled : (xs.length : α) ≠ 0) :
    comoment xs ys = (List.zipWith (· * ·) xs ys).sum - xs.sum * ys.sum / xs.length := by
  rw [comoment, sum_products _ _ same, average, average, ← same]
  field_simp
  ring

theorem error_moments (l : Fit α) (same : xs.length = ys.length) :
    l.error xs ys = (List.zipWith (· * ·) ys ys).sum - 2 * l.slope * (List.zipWith (· * ·) xs ys).sum +
      l.slope ^ 2 * (List.zipWith (· * ·) xs xs).sum - 2 * l.intercept * (ys.sum - l.slope * xs.sum) +
      xs.length * l.intercept ^ 2 := by
  simp only [Fit.error, Fit.value]
  induction xs generalizing ys with
  | nil =>
    obtain rfl := List.length_eq_zero_iff.mp same.symm
    simp
  | cons x xs ih =>
    cases ys with
    | nil => cases same
    | cons y ys =>
      simp only [List.zipWith_cons_cons, List.sum_cons, List.length_cons, Nat.cast_add, Nat.cast_one,
        ih (Nat.succ.inj same)]
      ring

theorem Fit.error_eq (l : Fit α) (same : xs.length = ys.length) (filled : (xs.length : α) ≠ 0) :
    l.error xs ys = comoment ys ys - 2 * l.slope * comoment xs ys + l.slope ^ 2 * comoment xs xs +
      xs.length * (average ys - l.value (average xs)) ^ 2 := by
  rw [error_moments l same, comoment_eq same filled, comoment_eq rfl filled, comoment_eq rfl (same ▸ filled), average,
    average, Fit.value, ← same]
  field_simp
  ring

theorem Fit.error_nonneg (xs ys : List α) (l : Fit α) : 0 ≤ l.error xs ys := by
  refine List.sum_nonneg fun r member => ?_
  obtain ⟨k, inside, rfl⟩ := List.mem_iff_getElem.mp member
  rw [List.getElem_zipWith]
  exact sq_nonneg _

theorem comoment_self (xs : List α) : comoment xs xs = (xs.map fun x => (x - average xs) ^ 2).sum := by
  rw [comoment, List.zipWith_self]
  simp only [sq]

theorem sq_deviation_nonneg (xs : List α) : ∀ r ∈ xs.map fun x => (x - average xs) ^ 2, 0 ≤ r :=
  List.forall_mem_map.mpr fun x _ => sq_nonneg (x - average xs)

theorem comoment_self_nonneg (xs : List α) : 0 ≤ comoment xs xs := by
  rw [comoment_self]
  exact List.sum_nonneg (sq_deviation_nonneg xs)

theorem sq_le_comoment {x : α} (member : x ∈ xs) : (x - average xs) ^ 2 ≤ comoment xs xs := by
  rw [comoment_self]
  exact List.single_le_sum (sq_deviation_nonneg xs) _ (List.mem_map_of_mem member)

/-- Values that are not all the same deviate from their average. -/
theorem comoment_pos {x y : α} (first : x ∈ xs) (second : y ∈ xs) (apart : x ≠ y) : 0 < comoment xs xs := by
  have left := sq_le_comoment first
  have right := sq_le_comoment second
  by_contra level
  have flat {z : α} (small : (z - average xs) ^ 2 ≤ comoment xs xs) : z = average xs :=
    sub_eq_zero.mp (pow_eq_zero_iff two_ne_zero |>.mp (le_antisymm (small.trans (not_lt.mp level)) (sq_nonneg _)))
  exact apart ((flat left).trans (flat right).symm)

/-! ### The line with the least squares -/

def leastFit (xs ys : List α) : Fit α where
  slope := comoment xs ys / comoment xs xs
  intercept := average ys - comoment xs ys / comoment xs xs * average xs

theorem leastFit_value (xs ys : List α) (x : α) :
    (leastFit xs ys).value x = average ys + comoment xs ys / comoment xs xs * (x - average xs) := by
  rw [Fit.value, leastFit]
  ring

theorem length_pos_of_spread (spread : 0 < comoment xs xs) : 0 < (xs.length : α) := by
  rw [Nat.cast_pos, List.length_pos_iff]
  rintro rfl
  exact lt_irrefl _ spread

section Least
variable (same : xs.length = ys.length) (spread : 0 < comoment xs xs)
include same spread

theorem error_leastFit : (leastFit xs ys).error xs ys = comoment ys ys - comoment xs ys ^ 2 / comoment xs xs := by
  have := spread.ne'
  rw [Fit.error_eq _ same (length_pos_of_spread spread).ne', leastFit_value, sub_self, mul_zero, add_zero,
    sub_self]
  simp only [leastFit]
  field_simp
  ring

theorem error_eq_add (l : Fit α) :
    l.error xs ys = (leastFit xs ys).error xs ys + comoment xs xs * (l.slope - (leastFit xs ys).slope) ^ 2 +
      xs.length * (average ys - l.value (average xs)) ^ 2 := by
  have := spread.ne'
  rw [error_leastFit same spread, Fit.error_eq _ same (length_pos_of_spread spread).ne']
  simp only [leastFit]
  field_simp
  ring

/-- There is one line with the least squares. -/
theorem isLeastSquares_iff (l : Fit α) : l.IsLeastSquares xs ys ↔ l = leastFit xs ys := by
  have count := length_pos_of_spread spread
  have steep (other : Fit α) := mul_nonneg spread.le (sq_nonneg (other.slope - (leastFit xs ys).slope))
  have high (other : Fit α) := mul_nonneg count.le (sq_nonneg (average ys - other.value (average xs)))
  constructor
  · intro least
    have small := least (leastFit xs ys)
    rw [error_eq_add same spread l] at small
    -- neither the slope nor the value at the average leaves anything to the error
    have slope : comoment xs xs * (l.slope - (leastFit xs ys).slope) ^ 2 = 0 :=
      le_antisymm (by linarith [high l]) (steep l)
    have middle : (xs.length : α) * (average ys - l.value (average xs)) ^ 2 = 0 :=
      le_antisymm (by linarith [steep l]) (high l)
    rw [mul_eq_zero_iff_left spread.ne', sq_eq_zero_iff, sub_eq_zero] at slope
    rw [mul_eq_zero_iff_left count.ne', sq_eq_zero_iff, sub_eq_zero, Fit.value, slope] at middle
    exact Fit.ext slope (eq_sub_of_add_eq' middle.symm)
  · rintro rfl other
    rw [error_eq_add same spread other]
    linarith [steep other, high other]

/-- Values on a line have that line. -/
theorem eq_leastFit_of_error {l : Fit α} (none : l.error xs ys = 0) : l = leastFit xs ys :=
  (isLeastSquares_iff same spread l).mp fun other => none ▸ Fit.error_nonneg xs ys other

theorem isFitted_leastFit (x : α) : IsFitted xs ys x ((leastFit xs ys).value x) where
  unique := ⟨leastFit xs ys, isLeastSquares_iff same spread, rfl⟩
  centered := leastFit_value xs ys x

/-- Values that do not vary do not vary together with others. -/
theorem comoment_eq_zero (flat : comoment ys ys = 0) : comoment xs ys = 0 := by
  -- even the least error is not below zero
  have nonneg := Fit.error_nonneg xs ys (leastFit xs ys)
  rw [error_leastFit same spread, flat, zero_sub, neg_nonneg] at nonneg
  have zero : comoment xs ys ^ 2 / comoment xs xs = 0 := le_antisymm nonneg (div_nonneg (sq_nonneg _) spread.le)
  rwa [div_eq_zero_iff, or_iff_left spread.ne', sq_eq_zero_iff] at zero

end Least

/-! ### The calculated line -/

/-- The roots of a correlation and of the two deviations cancel. -/
theorem slope_of_roots (roots : HasRoots α) {n a b : α} (c : α) (count : 0 < n) (first : 0 < a) (second : 0 < b) :
    n * c / sqrt (n * a * (n * b)) * (sqrt (b / n) / sqrt (a / n)) = c / a := by
  have wide := roots.sqrt_pos (div_pos first count)
  have tall := roots.sqrt_pos (div_pos second count)
  have width := roots.square (div_pos first count).le
  have height := roots.square (div_pos second count).le
  have root : sqrt (n * a * (n * b)) = n * n * (sqrt (a / n) * sqrt (b / n)) := by
    refine roots.sqrt_eq (by positivity) ?_
    calc n * n * (sqrt (a / n) * sqrt (b / n)) * (n * n * (sqrt (a / n) * sqrt (b / n)))
        = n * n * (n * n) * (sqrt (a / n) * sqrt (a / n)) * (sqrt (b / n) * sqrt (b / n)) := by ring
      _ = n * a * (n * b) := by
        rw [width, height]
        field_simp
  calc n * c / sqrt (n * a * (n * b)) * (sqrt (b / n) / sqrt (a / n))
      = c / (n * (sqrt (a / n) * sqrt (a / n))) := by
        rw [root]
        field_simp
    _ = c / a := by rw [width, mul_div_cancel₀ _ count.ne']

theorem populationDeviation_eq (long : 2 ≤ xs.length) :
    populationDeviation xs = sqrt (comoment xs xs / xs.length) := by
  rw [populationDeviation, if_neg (Nat.not_lt.mpr long), comoment_self]
  simp only [sum_eq, mean_eq, ofInt_eq, Int.cast_natCast, sq, average]

theorem correlation_eq (long : 2 ≤ xs.length) : correlation xs ys =
    if le (variances xs ys) 0.0 then 0.0 else covariance xs ys / sqrt (variances xs ys) :=
  if_neg (Nat.not_lt.mpr long)

section Calculated
variable (same : xs.length = ys.length)
include same

theorem covariance_eq (filled : (xs.length : α) ≠ 0) : covariance xs ys = xs.length * comoment xs ys := by
  rw [covariance, comoment_eq same filled]
  simp only [sum_eq, ofInt_eq, Int.cast_natCast]
  field_simp

theorem variances_eq (filled : (xs.length : α) ≠ 0) :
    variances xs ys = xs.length * comoment xs xs * (xs.length * comoment ys ys) := by
  rw [variances, comoment_eq rfl filled, comoment_eq rfl (same ▸ filled), List.zipWith_self, List.zipWith_self,
    ← same]
  simp only [sum_eq, ofInt_eq, Int.cast_natCast]
  field_simp

/-- A correlation times a quotient of deviations is the slope, also where one case says that there is none. -/
theorem slope_eq (roots : HasRoots α) (long : 2 ≤ xs.length) (spread : 0 < comoment xs xs) :
    correlation xs ys * (populationDeviation ys / populationDeviation xs) = comoment xs ys / comoment xs xs := by
  have count := length_pos_of_spread spread
  rw [correlation_eq long, variances_eq same count.ne', covariance_eq same count.ne', populationDeviation_eq long,
    populationDeviation_eq (same ▸ long), ← same]
  -- values that do not vary have no correlation by definition, and no slope either
  rcases (comoment_self_nonneg ys).eq_or_lt with flat | varied
  · rw [comoment_eq_zero same spread flat.symm, ← flat, mul_zero, mul_zero, if_pos (le_iff.mpr zero_eq.ge), zero_eq,
      zero_mul, zero_div]
  · have varies : ¬le (xs.length * comoment xs xs * (xs.length * comoment ys ys)) (0.0 : α) := by
      rw [le_iff, zero_eq, not_le]
      exact mul_pos (mul_pos count spread) (mul_pos count varied)
    rw [if_neg varies]
    exact slope_of_roots roots _ count spread varied

theorem fittedValue_eq (roots : HasRoots α) (long : 2 ≤ xs.length) (spread : 0 < comoment xs xs) (x : α) :
    fittedValue xs ys x = (leastFit xs ys).value x := by
  have count := length_pos_of_spread spread
  have varies : ¬isZero (populationDeviation xs) = true := by
    rw [isZero_iff, populationDeviation_eq long]
    exact (roots.sqrt_pos (div_pos spread count)).ne'
  rw [fittedValue, if_neg varies]
  dsimp only
  rw [slope_eq same roots long spread, mean_eq, mean_eq, leastFit_value]
  simp only [average]
  ring

end Calculated

/-- A window of one value does not vary. -/
theorem fittedValue_single (x y position : α) : fittedValue [x] [y] position = y := by
  have level : isZero (populationDeviation [x]) = true := by
    rw [isZero_iff, ← zero_eq]
    rfl
  rw [fittedValue, if_pos level, mean_eq]
  simp

/-! ### Moved positions -/

theorem average_shifted (d : α) (filled : (xs.length : α) ≠ 0) : average (xs.map (· + d)) = average xs + d := by
  have sum : (xs.map (· + d)).sum = xs.sum + xs.length * d := by
    rw [List.sum_map_add, List.map_id', List.map_const', List.sum_replicate, nsmul_eq_mul]
  rw [average, average, sum, List.length_map]
  field_simp

theorem comoment_shifted (ys : List α) (d : α) (filled : (xs.length : α) ≠ 0) :
    comoment (xs.map (· + d)) ys = comoment xs ys := by
  rw [comoment, average_shifted d filled, List.zipWith_map_left]
  simp only [add_sub_add_right_eq_sub, comoment]

theorem comoment_self_shifted (d : α) (filled : (xs.length : α) ≠ 0) :
    comoment (xs.map (· + d)) (xs.map (· + d)) = comoment xs xs := by
  rw [comoment_self, comoment_self, average_shifted d filled, List.map_map]
  simp only [Function.comp_def, add_sub_add_right_eq_sub]

/-- The line moves with the positions. -/
theorem leastFit_shifted (ys : List α) (d x : α) (filled : (xs.length : α) ≠ 0) :
    (leastFit (xs.map (· + d)) ys).value (x + d) = (leastFit xs ys).value x := by
  rw [leastFit_value, leastFit_value, comoment_shifted ys d filled, comoment_self_shifted d filled,
    average_shifted d filled, add_sub_add_right_eq_sub]

end Lines

/-! ### Windows of closes -/

section Windows
variable {α : Type} [Exact α] {closes : List α} {length : Int} {n i : Nat}

/-- The numbers of the last `n` bars up to bar `i`. -/
def numbers (α : Type) [Exact α] (n i : Nat) : List α := (List.range' (i + 1 - n) n).map fun (k : Nat) => (k : α)

theorem trailing_numbers {count : Nat} (whole : n ≤ i + 1) (inside : i < count) :
    trailing n ((List.range count).map fun (k : Nat) => (ofInt k : α)) i = numbers α n i := by
  have bars : trailing n (List.range count) i = List.range' (i + 1 - n) n := by
    have size : i + 1 - (i + 1 - n) = n := by omega
    rw [trailing, List.take_range, Nat.min_eq_left inside, List.range_eq_range', List.drop_range', Nat.mul_one,
      Nat.zero_add, size]
  rw [trailing_map, bars, numbers]
  simp only [ofInt_eq, Int.cast_natCast]

theorem length_numbers (n i : Nat) : (numbers α n i).length = n := by
  rw [numbers, List.length_map, List.length_range']

theorem length_numbers_eq (whole : n ≤ i + 1) (inside : i < closes.length) :
    (numbers α n i).length = (trailing n closes i).length := by
  rw [length_numbers, length_trailing whole inside]

theorem numbers_shifted (k : Nat) (whole : n ≤ i + 1) : numbers α n (k + i) = (numbers α n i).map (· + (k : α)) := by
  have first : k + i + 1 - n = k + (i + 1 - n) := by omega
  rw [numbers, numbers, first, ← List.map_add_range', List.map_map, List.map_map]
  simp only [Function.comp_def, Nat.cast_add, add_comm (k : α)]

theorem numbers_spread (long : 2 ≤ n) (whole : n ≤ i + 1) : 0 < comoment (numbers α n i) (numbers α n i) := by
  have among (k : Nat) (first : i + 1 - n ≤ k) (last : k ≤ i) : (k : α) ∈ numbers α n i :=
    List.mem_map_of_mem (List.mem_range'_1.mpr ⟨first, by omega⟩)
  exact comoment_pos (among i (by omega) (Nat.le_refl i)) (among (i - 1) (by omega) (Nat.sub_le i 1))
    (Nat.cast_injective.ne (by omega))

theorem length_regressionLine (closes : List α) (length : Int) :
    (regressionLine closes length).length = closes.length := by
  rw [regressionLine]
  dsimp only
  rw [List.length_map, List.length_range]

theorem getElem?_regressionLine (valid : 1 ≤ length) (whole : length ≤ i + 1) (inside : i < closes.length) :
    (regressionLine closes length)[i]? =
      some (some (fittedValue (numbers α length.toNat i) (trailing length.toNat closes i) i)) := by
  rw [regressionLine]
  dsimp only
  rw [List.getElem?_map, List.getElem?_range inside, Option.map_some, if_pos ⟨valid, whole⟩,
    trailing_numbers (by omega) inside, ofInt_eq, Int.cast_natCast]

theorem getElem?_regressionLine_fit (roots : HasRoots α) (long : 2 ≤ length) (whole : length ≤ i + 1)
    (inside : i < closes.length) : (regressionLine closes length)[i]? =
      some (some ((leastFit (numbers α length.toNat i) (trailing length.toNat closes i)).value i)) := by
  have same := length_numbers_eq (α := α) (n := length.toNat) (by omega) inside
  have filled : 2 ≤ (numbers α length.toNat i).length := by
    rw [length_numbers]
    omega
  rw [getElem?_regressionLine (by omega) whole inside,
    fittedValue_eq same roots filled (numbers_spread (by omega) (by omega))]

theorem getElem?_regressionLine_one (inside : i < closes.length) :
    (regressionLine closes 1)[i]? = some closes[i]? := by
  have here := List.getElem?_eq_getElem inside
  have number : numbers α 1 i = [(i : α)] := rfl
  rw [getElem?_regressionLine (Int.le_refl 1) (by omega) inside, here]
  show some (some (fittedValue (numbers α 1 i) (trailing 1 closes i) i)) = _
  rw [number, trailing_one here, fittedValue_single]

theorem isFitted_regressionLine (roots : HasRoots α) (long : 2 ≤ length) (whole : length ≤ i + 1)
    (inside : i < closes.length) : ∃ y, (regressionLine closes length)[i]? = some (some y) ∧
      IsFitted (numbers α length.toNat i) (trailing length.toNat closes i) i y := by
  have same := length_numbers_eq (α := α) (n := length.toNat) (by omega) inside
  exact ⟨_, getElem?_regressionLine_fit roots long whole inside,
    isFitted_leastFit same (numbers_spread (by omega) (by omega)) i⟩

theorem regressionLine_one (closes : List α) : regressionLine closes 1 = closes.map some := by
  refine List.ext_getElem? fun i => ?_
  by_cases inside : i < closes.length
  · rw [getElem?_regressionLine_one inside, List.getElem?_map, List.getElem?_eq_getElem inside]
    rfl
  · rw [List.getElem?_eq_none (by rw [length_regressionLine]; omega),
      List.getElem?_eq_none (by rw [List.length_map]; omega)]

/-- A line over later closes is the later part of the line. -/
theorem regressionLine_drop (roots : HasRoots α) (closes : List α) (valid : 1 ≤ length) (k : Nat)
    (whole : length ≤ i + 1) :
    (regressionLine (closes.drop k) length)[i]? = (regressionLine closes length)[k + i]? := by
  by_cases inside : k + i < closes.length
  · have inside' : i < (closes.drop k).length := by
      rw [List.length_drop]
      omega
    rcases valid.eq_or_lt with rfl | long
    · rw [getElem?_regressionLine_one inside', getElem?_regressionLine_one inside, List.getElem?_drop]
    · have filled : ((numbers α length.toNat i).length : α) ≠ 0 := by
        rw [length_numbers, Nat.cast_ne_zero]
        omega
      rw [getElem?_regressionLine_fit roots (by omega) whole inside',
        getElem?_regressionLine_fit roots (by omega) (by omega) inside, trailing_drop closes k (by omega),
        numbers_shifted k (by omega), Nat.cast_add, add_comm (k : α), leastFit_shifted _ _ _ filled]
  · rw [List.getElem?_eq_none (by rw [length_regressionLine, List.length_drop]; omega),
      List.getElem?_eq_none (by rw [length_regressionLine]; omega)]

/-- Closes on a line are reproduced. -/
theorem regressionLine_of_fit (roots : HasRoots α) (valid : 1 ≤ length) {l : Fit α}
    (on : ∀ (k : Nat) y, closes[k]? = some y → y = l.value k) (whole : length ≤ i + 1) (inside : i < closes.length) :
    (regressionLine closes length)[i]? = some closes[i]? := by
  rcases valid.eq_or_lt with rfl | long
  · exact getElem?_regressionLine_one inside
  · have line : closes = ((List.range closes.length).map fun (k : Nat) => (ofInt k : α)).map l.value := by
      refine List.ext_getElem (by simp) fun k early _ => ?_
      rw [on k _ (List.getElem?_eq_getElem early)]
      simp
    have window : trailing length.toNat closes i = (numbers α length.toNat i).map l.value := by
      rw [line, trailing_map, trailing_numbers (by omega) inside]
    have none : l.error (numbers α length.toNat i) (trailing length.toNat closes i) = 0 := by
      rw [window, Fit.error, List.zipWith_map_right, List.zipWith_self]
      simp
    have same := length_numbers_eq (α := α) (n := length.toNat) (by omega) inside
    have here := List.getElem?_eq_getElem inside
    rw [getElem?_regressionLine_fit roots (by omega) whole inside,
      ← eq_leastFit_of_error same (numbers_spread (by omega) (by omega)) none, here, on i _ here]

end Windows

end Exact

open Exact

/-- Exactly calculated and with exact roots, the regression line has at each bar the value of the one line with the
least squares over the last closes and the numbers of their bars. So it does not matter which bar is the first one,
and closes on a line are their own regression line. -/
theorem regressionLine_leastSquares {α : Type} [Exact α] (roots : HasRoots α) {length : Int} (valid : 1 ≤ length)
    (closes : List α) :
    (2 ≤ length → ∀ i : Nat, length ≤ i + 1 → i < closes.length →
      ∃ y, (regressionLine closes length)[i]? = some (some y) ∧
        IsFitted (numbers α length.toNat i) (trailing length.toNat closes i) i y) ∧
    (∀ k i : Nat, length ≤ i + 1 →
      (regressionLine (closes.drop k) length)[i]? = (regressionLine closes length)[k + i]?) ∧
    (∀ l : Fit α, (∀ (k : Nat) y, closes[k]? = some y → y = l.value k) → ∀ i : Nat, length ≤ i + 1 →
      i < closes.length → (regressionLine closes length)[i]? = some closes[i]?) ∧
    (length = 1 → regressionLine closes length = closes.map some) := by
  refine ⟨?_, ?_, ?_, ?_⟩
  · intro long i whole inside
    exact isFitted_regressionLine roots long whole inside
  · intro k i whole
    exact regressionLine_drop roots closes valid k whole
  · intro l on i whole inside
    exact regressionLine_of_fit roots valid on whole inside
  · rintro rfl
    exact regressionLine_one closes

/-- Five closes of which the last three, a whole window, are the same. -/
theorem regressionLine_leastSquares_of_plateau : HasRoots ℝ ∧ (1 : Int) ≤ 3 ∧
    (∃ y, (regressionLine ([9, 2, 5, 5, 5] : List ℝ) 3)[4]? = some (some y) ∧
      IsFitted (numbers ℝ 3 4) (trailing 3 ([9, 2, 5, 5, 5] : List ℝ) 4) ((4 : Nat) : ℝ) y) ∧
    (regressionLine ([5, 5, 5] : List ℝ) 3)[2]? = (regressionLine ([9, 2, 5, 5, 5] : List ℝ) 3)[4]? := by
  have valid : (1 : Int) ≤ 3 := by decide
  obtain ⟨fitted, moved, -, -⟩ := regressionLine_leastSquares hasRoots_real valid [9, 2, 5, 5, 5]
  exact ⟨hasRoots_real, valid, fitted (by decide) 4 (by decide) (by decide), moved 2 2 (by decide)⟩

end ChartOverlay
