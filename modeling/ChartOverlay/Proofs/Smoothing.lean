import ChartOverlay.Engine.BullBear
import ChartOverlay.Proofs.DoubleRange
import ChartOverlay.Proofs.Partial

/-!
# When smoothing fails

A smoothed value is a weighted mean whose weights lie on a bell curve. The mean guards its division by the sum of
the weights, but a weight divides by the square of the curve's deviation, which vanishes where the deviation is
small, and squares a whole number, which may be too large for a double. `alma_ok_iff` says that nothing else
fails; the exponential of a weight is never taken of anything above zero.
-/

namespace ChartOverlay

open Arith Double

/-! ### One weight -/

section Bell
variable {α : Type} [Arith α]

/-- What a weight is the exponential of. -/
def bellExponent? (s : α) (d : Int) : Except Fault α := do
  div? (← ofInt? (-(d * d))) ((2.0 : α) * s * s)

theorem bellWeight_eq (s : α) (d : Int) : bellWeight s d = exp <$> bellExponent? s d := by
  unfold bellWeight bellExponent?
  cases (ofInt? (-(d * d)) : Except Fault α) <;> rfl

end Bell

variable {s : Float} {d : Int}

theorem bellExponent?_ok_iff {x : Float} : bellExponent? s d = .ok x ↔
    ¬IsTooLarge (d * d) ∧ isZero (2.0 * s * s) = false ∧ ofInt (-(d * d)) / (2.0 * s * s) = x := by
  rw [← isTooLarge_neg]
  constructor
  · intro h
    obtain ⟨square, whole, h⟩ := bind_ok h
    obtain ⟨small, rfl⟩ := ofInt?_ok_iff.mp whole
    exact ⟨small, div?_ok_iff.mp h⟩
  · rintro ⟨small, filled, same⟩
    rw [bellExponent?, ofInt?_ok_iff.mpr ⟨small, rfl⟩]
    exact div?_ok_iff.mpr ⟨filled, same⟩

/-- The exponential of a weight cannot overflow. -/
theorem bellExponent?_not_zero_lt {x : Float} (h : bellExponent? s d = .ok x) : lt 0.0 x = false := by
  obtain ⟨-, -, rfl⟩ := bellExponent?_ok_iff.mp h
  have square : 0 ≤ d * d := mul_self_nonneg d
  exact div_not_zero_lt (ofInt_not_zero_lt (by omega)) (signOf_mul_mul rfl s)

theorem bellWeight_ok_iff :
    (∃ w, bellWeight s d = .ok w) ↔ ¬IsTooLarge (d * d) ∧ isZero (2.0 * s * s) = false := by
  simp only [bellWeight_eq, exists_ok_map, bellExponent?_ok_iff, exists_and_left, exists_eq', and_true]

/-! ### All weights -/

namespace Span

/-- The deviation of the curve, whether or not it can be calculated. -/
def spread (window : Int) : Span Float → Float
  | .whole n => ofRatio window n
  | .value x => ofInt window / x

variable {sigma : Span Float} {window : Int}

theorem spread_of_deviation (h : sigma.deviation window = .ok s) : sigma.spread window = s := by
  cases sigma with
  | whole n => exact (ratio?_ok_iff.mp h).2.2
  | value x =>
    obtain ⟨width, whole, h⟩ := bind_ok h
    obtain ⟨-, rfl⟩ := ofInt?_ok_iff.mp whole
    exact (div?_ok_iff.mp h).2

theorem deviation_ok (valid : 1 ≤ window) (sound : sigma.isDegenerate = false) (small : ¬IsTooLarge window) :
    sigma.deviation window = .ok (sigma.spread window) := by
  cases sigma with
  | whole n =>
    have pos : 1 ≤ n := by
      have : ¬n ≤ 0 := of_decide_eq_false sound
      omega
    have finite : isFinite (ofRatio window n : Float) = true := by
      rcases Int.lt_or_eq_of_le pos with wide | rfl
      · exact isFinite_ofRatio valid small wide
      · exact (isFinite_ofInt window).mpr small
    exact ratio?_ok_iff.mpr ⟨by omega, finite, rfl⟩
  | value x =>
    have filled : isZero x = false := (Bool.or_eq_false_iff.mp sound).2
    rw [deviation, ofInt?_ok_iff.mpr ⟨small, rfl⟩]
    exact div?_ok_iff.mpr ⟨filled, rfl⟩

end Span

/-- The lag at which the smoothing curve peaks. -/
def peakLag (window : Int) : Int := Arith.floor ((BullBearConfig.peakOffset : Float) * ofInt (window - 1))

/-- Whether the first `n` lags of a window have weights: no number is too large, and the square of the deviation
does not vanish. -/
structure HasWeights (window : Int) (sigma : Span Float) (n : Nat) : Prop where
  width : ¬IsTooLarge (window - 1)
  spread : isZero (2.0 * sigma.spread window * sigma.spread window) = false
  lags : ∀ lag : Nat, lag < window → lag < n → ¬IsTooLarge ((lag - peakLag window) * (lag - peakLag window))

/-- The peak is at a lag that can be calculated wherever the window can. -/
theorem isFinite_peak {x : Float} (h : isFinite x = true) :
    isFinite ((BullBearConfig.peakOffset : Float) * x) = true := by
  have read : (BullBearConfig.peakOffset : Float).toModel.unpack =
      .finite .positive 8106479329266893 (-53) (by decide) := rfl
  exact isFinite_mul read (by decide) (by decide) h

/-- The one window that is too large although the widest lag in it is not is too wide for its first weight. -/
theorem isTooLarge_peak {window : Int} (valid : 1 ≤ window) (large : IsTooLarge window)
    (width : ¬IsTooLarge (window - 1)) : IsTooLarge ((0 - peakLag window) * (0 - peakLag window)) := by
  obtain rfl : window = limit := by
    unfold IsTooLarge at large width
    omega
  decide +kernel

theorem alma_ok_iff {values : List Float} {window : Int} {sigma : Span Float} (valid : 1 ≤ window)
    (sound : sigma.isDegenerate = false) (filled : values ≠ []) :
    (∃ answers, alma values window BullBearConfig.peakOffset sigma = .ok answers) ↔
      HasWeights window sigma values.length := by
  have some : 0 < values.length := List.length_pos_iff.mpr filled
  simp only [alma, bellWeights, exists_ok_bind, exists_ok_pure, exists_ok_mapM, ofInt?_ok_iff, floor?_ok_iff,
    bellWeight_ok_iff, List.mem_range, and_true]
  constructor
  · rintro ⟨_, ⟨width, rfl⟩, _, ⟨-, rfl⟩, s, deviation, weights⟩
    obtain rfl := Span.spread_of_deviation deviation
    refine ⟨width, (weights 0 (by omega)).2, fun lag inside early => ?_⟩
    exact (weights lag (by omega)).1
  · rintro ⟨width, spread, lags⟩
    -- the deviation divides the window itself, which is one more than the widest lag
    have small : ¬IsTooLarge window := fun large => lags 0 valid some (isTooLarge_peak valid large width)
    refine ⟨_, ⟨width, rfl⟩, _, ⟨isFinite_peak ((isFinite_ofInt _).mpr width), rfl⟩, _,
      Span.deviation_ok valid sound small, fun lag early => ⟨?_, spread⟩⟩
    exact lags lag (by omega) (by omega)

end ChartOverlay
