import ChartOverlay.Engine.Basic
import ChartOverlay.Proofs.Growth
import ChartOverlay.Proofs.RegressionFaults
import ChartOverlay.Proofs.Rescaling
import ChartOverlay.Proofs.Smoothing

/-!
# When the bull and bear engine fails

Over closes that are numbers every extreme is defined and every look-up finds its entry. A power fails where its
extreme is so many bars ago that their number is too large for a double, a smoothed direction where a weight
fails, and nothing else does. `compute_returns_iff` puts this together with what is known of the regression engine.
-/

namespace ChartOverlay

open Arith Double

/-! ### Powers -/

theorem extendedGap_ok_iff (height : Float) {n : Int} (pos : 0 < n) :
    (∃ x, extendedGap height n = .ok x) ↔ ¬IsTooLarge n := by
  rw [extendedGap, if_neg (by omega)]
  simp only [exists_ok_bind, exists_ok_pure, ofInt?_ok_iff, and_true, exists_and_left, exists_eq']

theorem power_ok_iff (gap : Float) (barsAgo : Option Nat) :
    (∃ x, power gap barsAgo = .ok x) ↔ ∀ age ∈ barsAgo, ¬IsTooLarge age := by
  have one : 1 < limit := by decide +kernel
  simp only [power, exists_ok_bind, exists_ok_pure, and_true]
  rw [extendedGap_ok_iff gap (by omega)]
  cases barsAgo with
  | none =>
    refine iff_of_true ?_ nofun
    show ¬limit ≤ 1
    omega
  | some age =>
    simp only [Option.getD_some, Option.mem_some_iff, forall_eq', IsTooLarge, Int.natAbs_natCast]
    omega

section Ages
variable {α : Type} [Arith α] {window : Int} {age : Nat}

/-- How many bars ago the extremes of all windows are. -/
def extremeAges (closes : List α) (window : Int) : List Nat :=
  (highestBars closes window).reduceOption ++ (lowestBars closes window).reduceOption

omit [Arith α] in
theorem some_mem_rolling {β : Type} {f : List α → Option β} {xs : List α} {y : β} (valid : 1 ≤ window) :
    some y ∈ rolling window f xs ↔
      ∃ i : Nat, window ≤ i + 1 ∧ i < xs.length ∧ f (trailing window.toNat xs i) = some y := by
  simp only [rolling, List.mem_map, List.mem_range]
  constructor
  · rintro ⟨i, inside, read⟩
    split at read
    · rename_i whole
      exact ⟨i, whole.2, inside, read⟩
    · cases read
  · rintro ⟨i, whole, inside, read⟩
    exact ⟨i, inside, by rw [if_pos ⟨valid, whole⟩, read]⟩

theorem mem_extremeAges {closes : List α} (valid : 1 ≤ window) : age ∈ extremeAges closes window ↔
    ∃ i : Nat, window ≤ i + 1 ∧ i < closes.length ∧
      (extremeAge? gt (trailing window.toNat closes i) = some age ∨
        extremeAge? lt (trailing window.toNat closes i) = some age) := by
  simp only [extremeAges, List.mem_append, List.reduceOption_mem_iff, highestBars, lowestBars,
    some_mem_rolling valid, and_or_left, exists_or]

theorem extremeAgeFrom_lt (beats : α → α → Bool) (best : α) {k : Nat} (xs : List α) (early : age < k) :
    extremeAgeFrom beats best age k xs < k + xs.length := by
  induction xs generalizing best age k with
  | nil => exact early
  | cons x xs ih =>
    have stays := ih best (by omega : age < k + 1)
    have moves := ih x (Nat.lt_add_one k)
    rw [extremeAgeFrom, List.length_cons]
    split
    · omega
    · split <;> omega

theorem extremeAge?_lt {beats : α → α → Bool} {xs : List α} (h : extremeAge? beats xs = some age) :
    age < xs.length := by
  unfold extremeAge? at h
  rw [← List.length_reverse]
  split at h
  · cases h
  · rename_i x rest turned
    rw [turned, List.length_cons, ← Option.some.inj h, Nat.add_comm]
    exact extremeAgeFrom_lt beats x rest Nat.one_pos

/-- An extreme is fewer bars ago than there are bars. -/
theorem lt_of_mem_extremeAges {closes : List α} (valid : 1 ≤ window) (member : age ∈ extremeAges closes window) :
    age < closes.length := by
  obtain ⟨i, -, -, read⟩ := (mem_extremeAges valid).mp member
  have young := read.elim extremeAge?_lt extremeAge?_lt
  rw [trailing, List.length_drop, List.length_take] at young
  omega

end Ages

variable {closes : List Float} {window : Int}

/-- The powers of a bar fail only with the ages of its extremes. -/
theorem powersAt?_ok_iff (numbers : ∀ x ∈ closes, isNaN x = false) (valid : 1 ≤ window) {i : Int}
    (whole : window ≤ i + 1) (inside : i < closes.length) :
    (∃ p, powersAt? closes (highest closes window) (lowest closes window) (highestBars closes window)
      (lowestBars closes window) i = .ok p) ↔
      (∀ age ∈ extremeAge? gt (trailing window.toNat closes i.toNat), ¬IsTooLarge age) ∧
        ∀ age ∈ extremeAge? lt (trailing window.toNat closes i.toNat), ¬IsTooLarge age := by
  obtain ⟨close, read⟩ := entry?_ok (by omega) inside
  have windows {β : Type} (f : List Float → Option β) := entry?_rolling f valid whole inside
  have filled : trailing window.toNat closes i.toNat ≠ [] := trailing_ne_nil (by omega) (by omega)
  have extreme {beats : Float → Float → Bool} (undefined : ∀ x y, beats x y = true → isNaN y = false) :
      ∃ x, extreme? beats (trailing window.toNat closes i.toNat) = some x := by
    refine Option.ne_none_iff_exists'.mp fun none => ?_
    obtain ⟨x, member, broken⟩ := (extreme?_eq_none_iff undefined filled).mp none
    obtain ⟨k, -, -, found⟩ := mem_trailing.mp member
    rw [numbers x (List.mem_of_getElem? found)] at broken
    cases broken
  obtain ⟨top, above⟩ := extreme (gt_undefined fun _ _ => lt_of_isNaN)
  obtain ⟨bottom, below⟩ := extreme (lt_undefined fun _ _ => lt_of_isNaN)
  simp only [powersAt?, highest, lowest, highestBars, lowestBars, read, windows, above, below, sub?, ok_bind,
    exists_ok_bind, exists_ok_pure, and_true]
  rw [← power_ok_iff (top - close), ← power_ok_iff (close - bottom)]
  simp only [exists_and_right]

/-- All powers can be calculated exactly if no extreme is too many bars ago. -/
theorem bullBearPower_ok_iff (numbers : ∀ x ∈ closes, isNaN x = false) (valid : 1 ≤ window) :
    (∃ powers, bullBearPower closes window = .ok powers) ↔ ∀ age ∈ extremeAges closes window, ¬IsTooLarge age := by
  simp only [bullBearPower, exists_ok_bind, exists_ok_pure, and_true, sweepUpTo_eq_mapM, exists_ok_mapM,
    List.mem_range]
  constructor
  · intro swept age member
    obtain ⟨i, whole, inside, read⟩ := (mem_extremeAges valid).mp member
    have place : window - 1 + ((i - (window - 1)).toNat : Int) = i := by omega
    have done := swept (i - (window - 1)).toNat (by omega)
    rw [place] at done
    have small := (powersAt?_ok_iff numbers valid whole (by omega)).mp done
    exact read.elim (small.1 age) (small.2 age)
  · intro small k early
    refine (powersAt?_ok_iff numbers valid (by omega) (by omega)).mpr ⟨fun age read => ?_, fun age read => ?_⟩
    · exact small age ((mem_extremeAges valid).mpr ⟨_, by omega, by omega, Or.inl read⟩)
    · exact small age ((mem_extremeAges valid).mpr ⟨_, by omega, by omega, Or.inr read⟩)

/-- Both powers of every bar. -/
theorem length_bullBearPower {powers : Powers Float} (valid : 1 ≤ window) (enough : window ≤ closes.length)
    (h : bullBearPower closes window = .ok powers) :
    powers.bull.length = closes.length ∧ powers.bear.length = closes.length := by
  -- the closes are a front of themselves, so what keeps fronts keeps lengths
  have whole : IsFront closes.length closes closes := ⟨List.prefix_rfl, rfl⟩
  obtain ⟨same, again, bull, bear⟩ := bullBearPower_mono whole valid enough h
  obtain rfl := Except.ok.inj (h.symm.trans again)
  exact ⟨bull.length, bear.length⟩

/-! ### Directions -/

section Directions
variable {config : BullBearConfig Float} {powers : Powers Float} {n : Nat}

theorem direction_ok_iff (valid : 1 ≤ config.smoothFactor) (sound : config.sigma.isDegenerate = false)
    (bull : powers.bull.length = n) (bear : powers.bear.length = n) (filled : 0 < n) :
    (∃ directed, config.direction powers = .ok directed) ↔
      (config.smooth = true → HasWeights config.smoothFactor config.sigma n) := by
  unfold BullBearConfig.direction
  cases config.smooth with
  | false => exact iff_of_true ⟨_, rfl⟩ nofun
  | true =>
    have size : (List.zipWith (· + ·) powers.bull powers.bear).length = n := by
      rw [List.length_zipWith, bull, bear, Nat.min_self]
    have weights := alma_ok_iff valid sound (List.ne_nil_of_length_pos (size ▸ filled))
    rw [size] at weights
    simp only [if_true, forall_const, ← weights, BullBearConfig.smoothDirection, exists_ok_bind, exists_ok_pure,
      and_true]

theorem length_direction {directed : List Float × List DirectionColor} (valid : 1 ≤ config.window)
    (enough : config.window ≤ n) (bull : powers.bull.length = n) (bear : powers.bear.length = n)
    (h : config.direction powers = .ok directed) : directed.1.length = n ∧ directed.2.length = n := by
  obtain ⟨same, again, values, colors⟩ :=
    direction_mono ⟨List.prefix_rfl, bull⟩ ⟨List.prefix_rfl, bear⟩ valid enough h
  obtain rfl := Except.ok.inj (h.symm.trans again)
  exact ⟨values.length, colors.length⟩

end Directions

/-! ### Traces -/

section Traces
variable {α : Type} {times : List Int} {direction : List α} {colors : List DirectionColor} {start i : Int} {n : Nat}

theorem exists_pointAt? (time : times.length = n) (value : direction.length = n) (nonneg : 0 ≤ i) (inside : i < n) :
    ∃ p, pointAt? times direction i = .ok p := by
  obtain ⟨t, timed⟩ := entry?_ok nonneg (by omega : i < times.length)
  obtain ⟨x, valued⟩ := entry?_ok nonneg (by omega : i < direction.length)
  rw [pointAt?, timed, ok_bind, valued]
  exact ⟨_, rfl⟩

theorem exists_traceStep? (time : times.length = n) (value : direction.length = n) (color : colors.length = n)
    (nonneg : 0 ≤ start) (first : start ≤ i) (inside : i < n) :
    ∃ step, traceStep? times direction colors start i = .ok step := by
  obtain ⟨c, here⟩ := entry?_ok (by omega) (by omega : i < colors.length)
  obtain ⟨p, point⟩ := exists_pointAt? time value (by omega) inside
  rw [traceStep?, here, ok_bind]
  by_cases entered : i = start
  · rw [if_pos entered, point]
    exact ⟨_, rfl⟩
  · obtain ⟨last, before⟩ := entry?_ok (by omega) (by omega : i - 1 < colors.length)
    obtain ⟨q, bridge⟩ := exists_pointAt? time value (by omega) (by omega : i - 1 < n)
    rw [if_neg entered, before, ok_bind, point, bridge]
    dsimp only
    split
    · exact ⟨_, rfl⟩
    · exact ⟨_, rfl⟩

/-- A direction with a color and a time for every value can always be split. -/
theorem exists_splitDirection (time : times.length = n) (value : direction.length = n) (color : colors.length = n)
    (nonneg : 0 ≤ start) : ∃ traces, splitDirection times direction colors start = .ok traces := by
  simp only [splitDirection, exists_ok_bind, exists_ok_pure, and_true, sweepUpTo_eq_mapM, exists_ok_mapM,
    List.mem_range]
  intro k early
  exact exists_traceStep? time value color nonneg (by omega) (by omega)

end Traces

/-! ### Whole runs -/

/-- What the engine needs of its parameters and the closes: no extreme is too many bars ago, and a smoothed
direction has its weights. -/
structure BullBearConfig.IsFeasible (config : BullBearConfig Float) (closes : List Float) : Prop where
  ages : ∀ age ∈ extremeAges closes config.window, ¬IsTooLarge age
  weights : config.smooth = true → HasWeights config.smoothFactor config.sigma closes.length

/-- In a history of a length that occurs, only the weights can fail. -/
theorem BullBearConfig.isFeasible_iff {config : BullBearConfig Float} {closes : List Float}
    (valid : 1 ≤ config.window) (short : closes.length ≤ limit) : config.IsFeasible closes ↔
      (config.smooth = true → HasWeights config.smoothFactor config.sigma closes.length) := by
  refine ⟨fun feasible => feasible.weights, fun weights => ⟨fun age member => ?_, weights⟩⟩
  have early := lt_of_mem_extremeAges valid member
  exact Nat.not_le.mpr (by omega : age < limit)

theorem BullBearConfig.run_ok_iff {config : BullBearConfig Float} {history : History Float}
    (numbers : ∀ x ∈ history.closes, isNaN x = false) (valid : config.isValid = true)
    (enough : config.window < history.length) :
    (∃ outcome, config.run history = .ok outcome) ↔ config.IsFeasible history.closes := by
  simp only [isValid, Bool.and_eq_true, decide_eq_true_eq, Bool.not_eq_true'] at valid
  obtain ⟨⟨first, factor⟩, sound⟩ := valid
  have size := history.length_closes
  have times := history.length_times.trans size.symm
  constructor
  · rintro ⟨outcome, h⟩
    obtain ⟨powers, powered, h⟩ := bind_ok h
    obtain ⟨directed, turned, h⟩ := bind_ok h
    obtain ⟨bull, bear⟩ := length_bullBearPower first (by omega) powered
    exact ⟨(bullBearPower_ok_iff numbers first).mp ⟨powers, powered⟩,
      (direction_ok_iff factor sound bull bear (by omega)).mp ⟨directed, turned⟩⟩
  · rintro ⟨ages, weights⟩
    obtain ⟨powers, powered⟩ := (bullBearPower_ok_iff numbers first).mpr ages
    obtain ⟨bull, bear⟩ := length_bullBearPower first (by omega) powered
    obtain ⟨directed, turned⟩ := (direction_ok_iff factor sound bull bear (by omega)).mpr weights
    obtain ⟨values, colors⟩ := length_direction first (by omega) bull bear turned
    obtain ⟨traces, split⟩ := exists_splitDirection times values colors (by omega : 0 ≤ config.window - 1)
    rw [run, powered, ok_bind, turned, ok_bind]
    dsimp only
    rw [split]
    exact ⟨_, rfl⟩

section Engines
variable {α : Type} [Arith α] {history : History α}

/-- An engine whose runs always draw returns wherever it does not run or its run comes to an end, and draws nothing
exactly if there are too few candles. -/
theorem Engine.compute_cases (engine : Engine α) (history : History α) (valid : engine.isValid = true)
    (drawn : ∀ outcome, engine.run history = .ok outcome → outcome.isEmpty = false) :
    ((∃ outcome, engine.compute history = .ok outcome) ↔
      (engine.minCandles ≤ history.length → ∃ outcome, engine.run history = .ok outcome)) ∧
      ∀ outcome, engine.compute history = .ok outcome →
        (outcome.isEmpty = true ↔ history.length < engine.minCandles) := by
  by_cases enough : engine.minCandles ≤ history.length
  · rw [compute, if_pos ⟨valid, enough⟩]
    refine ⟨⟨fun returned _ => returned, fun returned => returned enough⟩, fun outcome ran => ?_⟩
    simp [drawn outcome ran, enough]
  · rw [compute, if_neg fun ready => enough ready.2]
    refine ⟨iff_of_true ⟨_, rfl⟩ fun ready => absurd ready enough, ?_⟩
    rintro outcome ran
    obtain rfl := Except.ok.inj ran
    exact iff_of_true rfl (Int.not_le.mp enough)

theorem RegressionConfig.run_drawn {config : RegressionConfig} {outcome : Outcome α}
    (h : config.run history = .ok outcome) : outcome.isEmpty = false := by
  obtain ⟨average, -, h⟩ := bind_ok h
  rw [← pure_ok h]
  rfl

theorem BullBearConfig.run_drawn {config : BullBearConfig α} {outcome : Outcome α}
    (h : config.run history = .ok outcome) : outcome.isEmpty = false := by
  obtain ⟨powers, -, h⟩ := bind_ok h
  obtain ⟨directed, -, h⟩ := bind_ok h
  obtain ⟨traces, -, h⟩ := bind_ok h
  rw [← pure_ok h]
  rfl

end Engines

/-- The two engines over finite closes, with parameters in range. With enough candles the regression engine fails
exactly if the length of its average, plus one, is too large for a double, and the bull and bear engine exactly if its
calculation is not feasible; in a history of a length that occurs only the weights of a smoothed direction decide that.
What an engine returns is empty exactly if there are too few candles. No root, quotient or exponential fails beside. -/
theorem compute_returns_iff (history : History Float) (finite : ∀ x ∈ history.closes, isFinite x = true) :
    (∀ config : RegressionConfig, config.isValid = true →
      ((∃ outcome, (Engine.regression config).compute history = .ok outcome) ↔
        (config.minCandles ≤ history.length → ¬IsTooLarge (config.emaLength + 1))) ∧
      (∀ outcome, (Engine.regression config).compute history = .ok outcome →
        (outcome.isEmpty = true ↔ history.length < config.minCandles)) ∧
      regressionLine? history.closes config.regressionLength =
        .ok (regressionLine history.closes config.regressionLength)) ∧
    ∀ config : BullBearConfig Float, config.isValid = true →
      ((∃ outcome, (Engine.bullBear config).compute history = .ok outcome) ↔
        (config.minCandles ≤ history.length → config.IsFeasible history.closes)) ∧
      (∀ outcome, (Engine.bullBear config).compute history = .ok outcome →
        (outcome.isEmpty = true ↔ history.length < config.minCandles)) ∧
      (history.length ≤ limit → (config.IsFeasible history.closes ↔
        (config.smooth = true → HasWeights config.smoothFactor config.sigma history.length))) ∧
      ∀ d x, bellExponent? (config.sigma.spread config.smoothFactor) d = .ok x → lt 0.0 x = false := by
  have size := history.length_closes
  constructor
  · intro config valid
    have lengths : 1 ≤ config.regressionLength ∧ 1 ≤ config.emaLength := by
      simpa [RegressionConfig.isValid] using valid
    obtain ⟨returns, empty⟩ := Engine.compute_cases (.regression config) history valid
      fun _ => RegressionConfig.run_drawn
    refine ⟨returns.trans (imp_congr_right fun enough => ?_), empty, regressionLine?_eq _ _⟩
    have few : config.regressionLength + 5 ≤ history.length := enough
    exact RegressionConfig.run_ok_iff lengths.2 (List.ne_nil_of_length_pos (by omega))
  · intro config valid
    have first : 1 ≤ config.window := by
      simp only [BullBearConfig.isValid, Bool.and_eq_true, decide_eq_true_eq] at valid
      exact valid.1.1
    obtain ⟨returns, empty⟩ := Engine.compute_cases (.bullBear config) history valid
      fun _ => BullBearConfig.run_drawn
    refine ⟨returns.trans (imp_congr_right fun enough => ?_), empty, fun short => ?_,
      fun d x => bellExponent?_not_zero_lt⟩
    · have few : config.window + 5 ≤ history.length := enough
      exact BullBearConfig.run_ok_iff (fun x member => isNaN_of_isFinite (finite x member)) valid (by omega)
    · rw [← size] at short ⊢
      exact BullBearConfig.isFeasible_iff first short

/-- Six closes of one. -/
def flatHistory : History Float where
  candles := (List.range 6).map fun (t : Nat) => ⟨t + 1, 1.0, 1.0, 1.0, 1.0, none⟩
  ordered := by decide

/-- A window that spans so many deviations that the square of one vanishes. -/
def wideConfig : BullBearConfig Float := { window := 1, sigma := .value 1e200 }

theorem compute_returns_iff_of_flat :
    (∃ outcome, (Engine.regression { regressionLength := 1, emaLength := 2 }).compute flatHistory = .ok outcome ∧
      outcome.isEmpty = false) ∧
    ¬∃ outcome, (Engine.bullBear wideConfig).compute flatHistory = .ok outcome := by
  have finite : ∀ x ∈ flatHistory.closes, isFinite x = true := by decide +kernel
  obtain ⟨regression, bullBear⟩ := compute_returns_iff flatHistory finite
  constructor
  · obtain ⟨returns, empty, -⟩ := regression { regressionLength := 1, emaLength := 2 } (by decide)
    obtain ⟨outcome, computed⟩ := returns.mpr fun _ => by decide +kernel
    exact ⟨outcome, computed, by simpa using (empty outcome computed).not.mpr (by decide)⟩
  · obtain ⟨returns, -⟩ := bullBear wideConfig (by decide +kernel)
    intro returned
    have vanishes : isZero (2.0 * wideConfig.sigma.spread 5 * wideConfig.sigma.spread 5) = true := by decide +kernel
    have kept := ((returns.mp returned (by decide)).weights rfl).spread
    exact Bool.false_ne_true (kept.symm.trans vanishes)

/-- The weights divide by the square of the deviation, which nothing guards. -/
theorem compute_wideConfig :
    wideConfig.isValid = true ∧ wideConfig.minCandles ≤ flatHistory.length ∧
      (Engine.bullBear wideConfig).compute flatHistory = .error .divisionByZero := by
  refine ⟨?_, ?_, ?_⟩ <;> decide +kernel

end ChartOverlay
