import ChartOverlay.Engine.Basic
import ChartOverlay.Proofs.Placement
import ChartOverlay.Proofs.Rescaling

/-!
# When the logistic engine fails

Over doubles the engine has three answers and no other: nothing where its parameters or the number of candles do
not allow a result, a missing operand where a close from bar one on is not a number, and in all other cases
curves of one length. `logistic_compute` says which it is; no training run makes a difference.
-/

namespace ChartOverlay

open Arith

variable {α : Type} [Arith α]

omit [Arith α] in
theorem Trader.walk_ok {view : Int → α → Except Fault (Option Position)} (holding : Int) (t : Trader)
    (start : Int) {candles : List (Candle α)}
    (views : ∀ i close, start ≤ i → i < start + candles.length → ∃ v, view i close = .ok v) :
    ∃ markers, t.walk view holding start candles = .ok markers := by
  induction candles generalizing t start with
  | nil => exact ⟨[], rfl⟩
  | cons c rest ih =>
    have size : ((c :: rest).length : Int) = rest.length + 1 := by simp
    obtain ⟨v, here⟩ := views start c.close (Int.le_refl _) (by omega)
    obtain ⟨later, walked⟩ := ih (t.next v) (start + 1) fun i close first last =>
      views i close (by omega) (by omega)
    refine ⟨(t.signals holding (t.next v)).map (·.marker c) ++ later, ?_⟩
    rw [Trader.walk, here, ok_bind]
    simp only [walked]
    rfl

theorem viewAt_ok {loss prediction : List α} (byPrice : Bool) {i : Int} (close : α) (first : 1 ≤ i)
    (inLoss : i < loss.length) (inPrediction : i < prediction.length) :
    ∃ v, viewAt byPrice loss prediction i close = .ok v := by
  obtain ⟨curve, here⟩ := entry?_ok (by omega) inLoss
  obtain ⟨other, here'⟩ := entry?_ok (by omega) inPrediction
  obtain ⟨curveBefore, before⟩ := entry?_ok (by omega) (by omega : i - 1 < loss.length)
  obtain ⟨otherBefore, before'⟩ := entry?_ok (by omega) (by omega : i - 1 < prediction.length)
  cases byPrice
  · simp only [viewAt, here, here', before, before', ok_bind]
    exact ⟨_, rfl⟩
  · simp only [viewAt, here, ok_bind]
    exact ⟨_, rfl⟩

namespace LogisticConfig
variable {config : LogisticConfig α} {history : History α}

/-- Whether the engine has nothing to draw: a window is empty or there are too few candles. -/
def Skips (config : LogisticConfig α) (n : Int) : Prop :=
  config.lookback < 1 ∨ config.normalization < 1 ∨ n < config.normalization + 10

/-- Whether a close after the first is not a number. -/
def IsBroken (history : History α) : Prop := ∃ x ∈ history.closes.drop 1, isNaN x = true

theorem markers_ok {loss prediction : List α} (wholeLoss : loss.length = history.length)
    (wholePrediction : prediction.length = history.length) :
    ∃ markers, config.markers history loss prediction = .ok markers := by
  refine Trader.walk_ok _ _ _ fun i close first last => ?_
  rw [List.length_drop] at last
  have inside : i < history.length := by
    have : history.length = history.candles.length := rfl
    omega
  exact viewAt_ok _ close (by omega) (by omega) (by omega)

/-- What the engine draws has a point for every candle from the first whole window on. -/
theorem length_of_result {loss prediction : List α} (wholeLoss : loss.length = history.length)
    (wholePrediction : prediction.length = history.length) (valid : 1 ≤ config.normalization)
    (enough : config.normalization ≤ history.length) :
    (config.result history loss prediction).lines ≠ [] ∧
      ∀ line ∈ (config.result history loss prediction).lines,
        (line.points.length : Int) = history.length - config.normalization := by
  have times := history.length_times
  constructor
  · cases curves : config.showCurves <;> simp [result, lines, curves]
  · intro line member
    rcases points_of_lines line member with same | same
    all_goals
      rw [same, List.length_drop, List.length_zipWith]
      omega

theorem run_ok (law : Trainable α) (ready : ¬config.Skips history.length) (sound : ¬IsBroken history) :
    ∃ outcome r, config.run history = .ok outcome ∧ outcome.indicator = some r ∧ r.lines ≠ [] ∧
      ∀ line ∈ r.lines, (line.points.length : Int) = history.length - config.normalization := by
  unfold Skips at ready
  have size := history.length_closes
  have numbers : ∀ k x, 1 ≤ k → history.closes[k]? = some x → isNaN x = false := by
    intro k x later found
    rw [← Bool.not_eq_true]
    intro broken
    refine sound ⟨x, ?_, broken⟩
    rw [List.mem_iff_getElem?]
    exact ⟨k - 1, by rw [List.getElem?_drop, Nat.add_sub_cancel' later, found]⟩
  have valid : 1 ≤ config.lookback ∧ 1 ≤ config.normalization := by omega
  have enough : config.normalization < history.closes.length := by omega
  obtain ⟨scores, scored, whole⟩ := scores_ok law valid.1 history.closes
  -- both curves come out of training whole, so only the closes could make their rescaling fail
  have rescaled (f : Score α → α) : ∃ curve,
      rescale (scores.map f) history.closes config.normalization = .ok curve ∧
        curve.length = history.closes.length :=
    rescale_ok law ((List.length_map f).trans whole) valid.2 enough numbers
  obtain ⟨loss, lossRan, wholeLoss⟩ := rescaled (·.loss)
  obtain ⟨prediction, predictionRan, wholePrediction⟩ := rescaled (·.prediction)
  obtain ⟨markers, walked⟩ := markers_ok (wholeLoss.trans size) (wholePrediction.trans size)
  refine ⟨{ indicator := some (config.result history loss prediction), markers }, _, ?_, rfl,
    length_of_result (wholeLoss.trans size) (wholePrediction.trans size) (by omega) (by omega)⟩
  rw [run, scored, ok_bind, lossRan, ok_bind, predictionRan, ok_bind, walked]
  rfl

theorem run_error (law : Trainable α) (ready : ¬config.Skips history.length) (broken : IsBroken history) :
    ∃ op, config.run history = .error (.undefinedOperand op false false) := by
  unfold Skips at ready
  have size := history.length_closes
  obtain ⟨x, member, undefined⟩ := broken
  obtain ⟨k, found⟩ := List.mem_iff_getElem?.mp member
  rw [List.getElem?_drop] at found
  have valid : 1 ≤ config.lookback ∧ 1 ≤ config.normalization := by omega
  have enough : config.normalization < history.closes.length := by omega
  obtain ⟨scores, scored, whole⟩ := scores_ok law valid.1 history.closes
  obtain ⟨op, failed⟩ := rescale_error law ((List.length_map (·.loss)).trans whole) valid.2 enough
    (by omega : 1 ≤ 1 + k) found undefined
  exact ⟨op, by rw [run, scored, ok_bind, failed]; rfl⟩

theorem compute_eq (config : LogisticConfig α) (history : History α) :
    (config.Skips history.length → (Engine.logistic config).compute history = .ok {}) ∧
      (¬config.Skips history.length → (Engine.logistic config).compute history = config.run history) := by
  have runs : (Engine.logistic config).Runs history ↔ ¬config.Skips history.length := by
    simp only [Engine.Runs, Engine.isValid, isValid, Engine.minCandles, minCandles, Skips, Bool.and_eq_true,
      decide_eq_true_eq]
    omega
  constructor
  · intro skipped
    exact if_neg fun ready => runs.mp ready skipped
  · intro ready
    exact if_pos (runs.mpr ready)

end LogisticConfig

open LogisticConfig

/-- The engine over doubles whose exponential is never below zero. It draws nothing exactly if a window is
empty or there are fewer than ten candles more than the normalization window has; otherwise it fails exactly if
a close after the first is not a number, and then for want of an operand; otherwise all its lines have a point
for each candle after the first normalization window. -/
theorem logistic_compute {exp log : Float → Float} (above : ∀ x, lt (exp x) 0.0 = false)
    (config : LogisticConfig (DoubleWith exp log)) (history : History (DoubleWith exp log)) :
    ((Engine.logistic config).compute history = .ok {} ↔ config.Skips history.length) ∧
      ((∃ fault, (Engine.logistic config).compute history = .error fault) ↔
        ¬config.Skips history.length ∧ IsBroken history) ∧
      (∀ fault, (Engine.logistic config).compute history = .error fault →
        ∃ op, fault = .undefinedOperand op false false) ∧
      (¬config.Skips history.length → ¬IsBroken history →
        ∃ outcome r, (Engine.logistic config).compute history = .ok outcome ∧ outcome.indicator = some r ∧
          r.lines ≠ [] ∧
          ∀ line ∈ r.lines, (line.points.length : Int) = history.length - config.normalization) := by
  have law : Trainable (DoubleWith exp log) := Double.trainable above
  have skip := (compute_eq config history).1
  have run := (compute_eq config history).2
  by_cases skipped : config.Skips history.length
  · rw [skip skipped]
    exact ⟨⟨fun _ => skipped, fun _ => rfl⟩, ⟨nofun, fun h => absurd skipped h.1⟩, nofun,
      fun ready => absurd skipped ready⟩
  · rw [run skipped]
    by_cases broken : IsBroken history
    · obtain ⟨op, failed⟩ := run_error law skipped broken
      rw [failed]
      refine ⟨⟨nofun, fun h => absurd h skipped⟩, ⟨fun _ => ⟨skipped, broken⟩, fun _ => ⟨_, rfl⟩⟩, ?_,
        fun _ sound => absurd broken sound⟩
      rintro fault same
      cases same
      exact ⟨op, rfl⟩
    · obtain ⟨outcome, r, ran, drawn, filled, lengths⟩ := run_ok law skipped broken
      rw [ran]
      refine ⟨⟨?_, fun h => absurd h skipped⟩, ⟨nofun, fun h => absurd h.2 broken⟩, nofun,
        fun _ _ => ⟨outcome, r, rfl, drawn, filled, lengths⟩⟩
      intro same
      obtain rfl := Except.ok.inj same
      cases drawn

/-- An exponential and a logarithm that are those of zero and of one half: a model whose weight stays zero asks
for no others. -/
def stillExp (_ : Float) : Float := 1.0

def stillLog (_ : Float) : Float := -0.6931471805599453

def stillConfig : LogisticConfig (DoubleWith stillExp stillLog) :=
  { lookback := 1, normalization := 2, learningRate := (0.0 : Float), iterations := 1 }

def risingHistory : History (DoubleWith stillExp stillLog) where
  candles := (List.range 12).map fun (t : Nat) =>
    let close : Float := Arith.ofInt (t + 1)
    ⟨t, close, close, close, close, none⟩
  ordered := by decide

theorem logistic_compute_of_rising : ∃ outcome r,
    (Engine.logistic stillConfig).compute risingHistory = .ok outcome ∧ outcome.indicator = some r ∧
      ∀ line ∈ r.lines, (line.points.length : Int) = 10 := by
  have ready : ¬stillConfig.Skips risingHistory.length := by
    rintro (small | small | few)
    · exact absurd small (by decide)
    · exact absurd small (by decide)
    · exact absurd few (by decide)
  have sound : ¬IsBroken risingHistory := by
    rintro ⟨x, member, broken⟩
    have none : (risingHistory.closes.drop 1).all (fun x => !isNaN x) = true := by decide +kernel
    have defined := List.all_eq_true.mp none x member
    rw [broken] at defined
    cases defined
  have one : lt (1.0 : Float) 0.0 = false := rfl
  have above : ∀ x, lt (stillExp x) 0.0 = false := fun _ => one
  obtain ⟨outcome, r, computed, drawn, -, lengths⟩ :=
    (logistic_compute above stillConfig risingHistory).2.2.2 ready sound
  exact ⟨outcome, r, computed, drawn, lengths⟩

end ChartOverlay
