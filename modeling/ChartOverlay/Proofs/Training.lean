import ChartOverlay.Engine.Logistic
import ChartOverlay.Proofs.DoubleLaws
import ChartOverlay.Proofs.Partial

/-!
# Training never fails

A training run may diverge to infinite weights or to weights that are not numbers. Still no step of it divides
by zero or takes a logarithm of what is not above zero: `scores_ok`. What is needed of the numbers for that is
`Trainable`, and doubles have it whatever their exponential is, as long as it is never below zero.
-/

namespace ChartOverlay

open Arith

/-- What training and rescaling need of numbers. -/
structure Trainable (α : Type) [Arith α] : Prop where
  denominator : ∀ z : α, isZero (1.0 + exp (-z)) = false
  floor : ∀ h : α, le (clampHypothesis h) 0.0 = false
  ceiling : ∀ h : α, le (1.0 - clampHypothesis h) 0.0 = false
  distinct : ∀ x y : α, isZero (x - y) = true → eq x y = true
  undefined : ∀ x y : α, isNaN x = true ∨ isNaN y = true → lt x y = false

section Steps
variable {α : Type} [Arith α]

theorem sigmoid_ok (law : Trainable α) (z : α) : ∃ h, sigmoid z = .ok h := by
  refine ⟨1.0 / (1.0 + exp (-z)), ?_⟩
  rw [sigmoid, div?, law.denominator]
  rfl

theorem log?_ok {x : α} (above : le x 0.0 = false) : log? x = .ok (log x) := by
  rw [log?, above]
  rfl

theorem crossEntropy_ok (law : Trainable α) (label hypothesis : α) :
    ∃ loss, crossEntropy label hypothesis = .ok loss := by
  have first := log?_ok (law.floor hypothesis)
  have second := log?_ok (law.ceiling hypothesis)
  rw [crossEntropy, logLikelihood, first, ok_bind, second]
  exact ⟨_, rfl⟩

theorem gradient_ok {period : Int} (valid : period ≠ 0) (window : List (Sample α)) (hypothesis : α) :
    ∃ slope, gradient period window hypothesis = .ok slope :=
  ⟨_, if_neg valid⟩

/-- No step of a descent fails, from whatever weight. -/
theorem step_ok (law : Trainable α) (rate : α) {period : Int} (valid : period ≠ 0) (window : List (Sample α))
    (label : α) (m : Model α) : ∃ next, m.step rate period window label = .ok next := by
  obtain ⟨hypothesis, predicted⟩ := sigmoid_ok law (total (window.map fun s => s.feature * m.weight))
  obtain ⟨loss, entropy⟩ := crossEntropy_ok law label hypothesis
  obtain ⟨slope, steep⟩ := gradient_ok valid window hypothesis
  rw [Model.step, predict, predicted, ok_bind, entropy, ok_bind, steep]
  exact ⟨_, rfl⟩

omit [Arith α] in
theorem descend_ok {step : Model α → Except Fault (Model α)} (h : ∀ m, ∃ next, step m = .ok next) (m : Model α)
    (n : Nat) : ∃ last, m.descend step n = .ok last := by
  induction n generalizing m with
  | zero => exact ⟨m, rfl⟩
  | succ n ih =>
    obtain ⟨next, stepped⟩ := h m
    obtain ⟨last, descended⟩ := ih next
    exact ⟨last, by rw [Model.descend, stepped, ok_bind, descended]⟩

theorem train_ok (law : Trainable α) (window : List (Sample α)) (label : α) {period : Int} (valid : period ≠ 0)
    (rate : α) (iterations : Int) : ∃ score, train window label period rate iterations = .ok score := by
  obtain ⟨last, descended⟩ := descend_ok (step_ok law rate valid window label) .initial iterations.toNat
  obtain ⟨prediction, predicted⟩ := sigmoid_ok law (total (window.map fun s => s.feature * last.weight))
  rw [train, descended, ok_bind, predict, predicted]
  exact ⟨_, rfl⟩

/-- Every bar has a score. -/
theorem scores_ok (law : Trainable α) {config : LogisticConfig α} (valid : 1 ≤ config.lookback)
    (closes : List α) : ∃ scores, config.scores closes = .ok scores ∧ scores.length = closes.length := by
  have size : (LogisticConfig.samples closes).length = closes.length := by
    rw [LogisticConfig.samples, List.length_zipWith, List.length_range, Nat.min_self]
  obtain ⟨scores, ran⟩ : ∃ scores, config.scores closes = .ok scores := by
    refine mapM_ok_of_forall fun i _ => ?_
    split
    · exact ⟨_, rfl⟩
    · dsimp only
      split
      · exact ⟨_, rfl⟩
      · exact train_ok law _ _ (by omega) _ _
  refine ⟨scores, ran, ?_⟩
  rw [← (mapM_ok_iff.mp ran).length_eq, List.length_range, size]

end Steps

/-! ### Doubles -/

/-- Doubles with an exponential and a logarithm of their own. -/
def DoubleWith (_ _ : Float → Float) : Type := Float

instance (exp log : Float → Float) : Arith (DoubleWith exp log) :=
  { (inferInstance : Arith Float) with exp, log }

namespace Double
variable {x y : Float}

theorem le_of_lt (h : lt x y = true) : le y x = false := by
  have asymm := lt_asymm h
  rw [lt_eq, beq_iff_eq] at h
  rw [le, asymm, Bool.false_or, eq_eq, ← compare_swap, h]
  rfl

/-- A hypothesis is kept between zero and one, even if it is not a number. -/
theorem clampHypothesis_inside (h : Float) :
    lt 0.0 (clampHypothesis h) = true ∧ lt (clampHypothesis h) 1.0 = true := by
  have bottom : lt 0.0 (hypothesisFloor : Float) = true := rfl
  have middle : lt (hypothesisFloor : Float) 1.0 = true := rfl
  have top : lt (hypothesisCeiling : Float) 1.0 = true := rfl
  unfold clampHypothesis greatest
  split
  · rename_i above
    refine ⟨lt_trans bottom above, ?_⟩
    unfold least
    -- what is not a number is not below the ceiling, which then stands for it
    split
    · rename_i below
      exact lt_trans below top
    · exact top
  · exact ⟨bottom, middle⟩

/-- Doubles can be trained on if their exponential is never below zero. -/
theorem trainable {exp log : Float → Float} (above : ∀ x, lt (exp x) 0.0 = false) :
    Trainable (DoubleWith exp log) where
  denominator z := by
    have one : lt (0.0 : Float) 1.0 = true := rfl
    exact isZero_add one (above (-z))
  floor h := le_of_lt (clampHypothesis_inside h).1
  ceiling h := le_of_lt (zero_lt_sub (clampHypothesis_inside h).2)
  distinct _ _ := eq_of_isZero_sub
  undefined _ _ := lt_of_isNaN

end Double

end ChartOverlay
