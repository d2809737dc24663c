import ChartOverlay.Engine.Basic
import ChartOverlay.Proofs.DoubleRange
import ChartOverlay.Proofs.Partial
import ChartOverlay.Proofs.Sums

/-!
# When the regression engine fails

The regression line takes roots and divides, and its definition checks none of it. Here it is calculated once
more with every root and every quotient checked: over doubles no check fails and the line is the same,
`regressionLine?_eq`. What is left to fail is the length of the average, which may be too large for a double.
-/

namespace ChartOverlay

open Arith

section Checked
variable {α : Type} [Arith α]

/-- The root of what is not below zero; what is not a number has itself. -/
def sqrt? (x : α) : Except Fault α := if lt x 0.0 then .error .outsideDomain else .ok (sqrt x)

def radicand? (n : Int) (window : List α) : Except Fault α :=
  div? (sum (window.map fun x => (x - mean window) * (x - mean window))) (ofInt n)

def populationDeviation? (xs : List α) : Except Fault α :=
  if xs.length < 2 then .ok 0.0 else do sqrt? (← radicand? xs.length xs)

/-- How much two windows vary together, scaled by the square of their length. -/
def covariance (xs ys : List α) : α :=
  ofInt xs.length * sum (List.zipWith (· * ·) xs ys) - sum xs * sum ys

/-- The variances of two windows multiplied, on the scale of `covariance`. -/
def variances (xs ys : List α) : α :=
  (ofInt xs.length * sum (xs.map fun x => x * x) - sum xs * sum xs) *
    (ofInt xs.length * sum (ys.map fun y => y * y) - sum ys * sum ys)

def correlation? (xs ys : List α) : Except Fault α :=
  if xs.length < 2 then .ok 0.0
  else if le (variances xs ys) 0.0 then .ok 0.0
  else do div? (covariance xs ys) (← sqrt? (variances xs ys))

def fittedValue? (xs ys : List α) (position : α) : Except Fault α := do
  let spreadX ← populationDeviation? xs
  let spreadY ← populationDeviation? ys
  if isZero spreadX then return mean ys
  else
    let slope := (← correlation? xs ys) * (← div? spreadY spreadX)
    return position * slope + (mean ys - slope * mean xs)

def regressionLine? (closes : List α) (length : Int) : Except Fault (List (Option α)) :=
  let positions : List α := (List.range closes.length).map fun (i : Nat) => ofInt i
  (List.range closes.length).mapM fun (i : Nat) =>
    if 1 ≤ length ∧ length ≤ i + 1 then
      let n := length.toNat
      some <$> fittedValue? (trailing n positions i) (trailing n closes i) (ofInt i)
    else .ok none

end Checked

namespace Double
variable (xs ys : List Float)

theorem sqrt?_eq {x : Float} (h : lt x 0.0 = false) : sqrt? x = .ok (sqrt x) := by
  rw [sqrt?, h]
  rfl

theorem isZero_ofInt {n : Int} (pos : 0 < n) : isZero (ofInt n : Float) = false :=
  isZero_of_zero_lt (zero_lt_ofInt pos)

theorem populationDeviation?_eq : populationDeviation? xs = .ok (populationDeviation xs) := by
  unfold populationDeviation? populationDeviation
  by_cases short : xs.length < 2
  · rw [if_pos short, if_pos short]
  · have divided : radicand? xs.length xs = .ok (radicand xs.length xs) :=
      div?_ok_iff.mpr ⟨isZero_ofInt (by omega), rfl⟩
    have rooted := sqrt?_eq (radicand_not_lt_zero (Int.natCast_nonneg xs.length) xs)
    rw [if_neg short, if_neg short, divided, ok_bind, rooted]
    rfl

theorem correlation?_eq : correlation? xs ys = .ok (correlation xs ys) := by
  have read : correlation xs ys = if xs.length < 2 then 0.0 else if le (variances xs ys) 0.0 then 0.0
      else covariance xs ys / sqrt (variances xs ys) := rfl
  rw [read]
  unfold correlation?
  by_cases short : xs.length < 2
  · rw [if_pos short, if_pos short]
  · rw [if_neg short, if_neg short]
    cases level : le (variances xs ys) 0.0 with
    | true => rfl
    | false =>
      have rooted := sqrt?_eq (Bool.or_eq_false_iff.mp level).1
      have divided := div?_ok_iff.mpr ⟨isZero_sqrt level, (rfl : covariance xs ys / _ = _)⟩
      simp only [rooted, divided, ok_bind, Bool.false_eq_true, if_false]

theorem fittedValue?_eq (position : Float) : fittedValue? xs ys position = .ok (fittedValue xs ys position) := by
  unfold fittedValue? fittedValue
  rw [populationDeviation?_eq, ok_bind, populationDeviation?_eq, ok_bind, correlation?_eq]
  dsimp only
  cases level : isZero (populationDeviation xs) with
  | true => rfl
  | false =>
    have divided := div?_ok_iff.mpr ⟨level, (rfl : populationDeviation ys / _ = _)⟩
    simp only [divided, ok_bind, Bool.false_eq_true, if_false]
    rfl

/-- No root and no quotient of the regression line fails. -/
theorem regressionLine?_eq (closes : List Float) (length : Int) :
    regressionLine? closes length = .ok (regressionLine closes length) := by
  unfold regressionLine? regressionLine
  rw [mapM_ok_iff]
  simp only [List.forall₂_map_right_iff, List.forall₂_same]
  intro i _
  split
  · rw [fittedValue?_eq]
    rfl
  · rfl

end Double

theorem emaContinuous_ok_iff {values : List Float} (filled : values ≠ []) {period : Int} (valid : 1 ≤ period) :
    (∃ average, emaContinuous values period = .ok average) ↔ ¬Double.IsTooLarge (period + 1) := by
  cases values with
  | nil => exact absurd rfl filled
  | cons x rest =>
    have divisor : isZero (ofInt (period + 1) : Float) = false := Double.isZero_ofInt (by omega)
    simp only [emaContinuous, exists_ok_bind, exists_ok_pure, Double.ofInt?_ok_iff, div?_ok_iff, and_true]
    constructor
    · rintro ⟨_, ⟨small, _⟩, _⟩
      exact small
    · intro small
      exact ⟨_, ⟨small, rfl⟩, _, divisor, rfl⟩

namespace RegressionConfig
variable {config : RegressionConfig} {history : History Float}

theorem run_ok_iff (valid : 1 ≤ config.emaLength) (filled : history.closes ≠ []) :
    (∃ outcome, config.run history = .ok outcome) ↔ ¬Double.IsTooLarge (config.emaLength + 1) := by
  rw [← emaContinuous_ok_iff filled valid]
  simp only [run, exists_ok_bind, exists_ok_pure, and_true]

end RegressionConfig

end ChartOverlay
