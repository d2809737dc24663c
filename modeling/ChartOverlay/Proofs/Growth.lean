import ChartOverlay.Engine.Basic
import ChartOverlay.Proofs.Causal

/-!
# Engines over more candles

The calculations of an engine stop at the first fault. Over the first `n` candles they come to an end wherever
they do over more candles, with the answers for the first `n` bars. Each lemma takes the calculation over more
candles apart and puts the one over fewer together.
-/

namespace ChartOverlay

/-- `xs` holds the first `n` entries of `ys`. -/
structure IsFront {β : Type} (n : Nat) (xs ys : List β) : Prop where
  extended : xs <+: ys
  length : xs.length = n

namespace IsFront
variable {β γ δ : Type} {n : Nat} {xs ys : List β}

theorem le (front : IsFront n xs ys) : n ≤ ys.length := front.length ▸ front.extended.length_le

theorem map (front : IsFront n xs ys) (f : β → γ) : IsFront n (xs.map f) (ys.map f) where
  extended := front.extended.map f
  length := by rw [List.length_map, front.length]

theorem zipWith (f : β → γ → δ) {us vs : List γ} (left : IsFront n xs ys) (right : IsFront n us vs) :
    IsFront n (List.zipWith f xs us) (List.zipWith f ys vs) where
  extended := zipWith_mono f left.extended right.extended
  length := by rw [List.length_zipWith, left.length, right.length, Nat.min_self]

theorem rolling (front : IsFront n xs ys) (window : Int) (f : List β → Option γ) :
    IsFront n (rolling window f xs) (rolling window f ys) where
  extended := rolling_causal window f front.extended
  length := by rw [length_rolling, front.length]

/-- What is padded up to bar `k` and goes on from there. -/
theorem padded {k m : Nat} (enough : k ≤ n) (x : β) (extended : xs <+: ys) (length : xs.length = n - k)
    (le : n ≤ m) : IsFront n (List.replicate (min k n) x ++ xs) (List.replicate (min k m) x ++ ys) where
  extended := by
    rw [Nat.min_eq_left enough, Nat.min_eq_left (by omega)]
    exact (List.prefix_append_right_inj _).mpr extended
  length := by
    rw [List.length_append, List.length_replicate, length]
    omega

theorem entry (front : IsFront n xs ys) {i : Int} (nonneg : 0 ≤ i) (inside : i < n) :
    entry? xs i = entry? ys i :=
  entry?_mono front.extended nonneg (by rwa [front.length])

theorem length_drop (front : IsFront n xs ys) (k : Nat) : (xs.drop k).length = n - k := by
  rw [List.length_drop, front.length]

end IsFront

open Arith

variable {α : Type} [Arith α] {n : Nat}

/-! ### Bull and bear power -/

section BullBear

theorem powersAt?_eq_of_lt {xs ys : List α} (closes : IsFront n xs ys) (window : Int) {i : Int}
    (nonneg : 0 ≤ i) (inside : i < n) :
    powersAt? xs (highest xs window) (lowest xs window) (highestBars xs window) (lowestBars xs window) i =
      powersAt? ys (highest ys window) (lowest ys window) (highestBars ys window) (lowestBars ys window)
        i := by
  have windows {β : Type} (f : List α → Option β) := (closes.rolling window f).entry nonneg inside
  simp only [powersAt?, highest, lowest, highestBars, lowestBars, windows, closes.entry nonneg inside]

theorem bullBearPower_mono {xs ys : List α} {window : Int} {later : Powers α} (closes : IsFront n xs ys)
    (valid : 1 ≤ window) (enough : window ≤ n) (h : bullBearPower ys window = .ok later) :
    ∃ front, bullBearPower xs window = .ok front ∧ IsFront n front.bull later.bull ∧
      IsFront n front.bear later.bear := by
  obtain ⟨powers, swept, h⟩ := bind_ok h
  obtain rfl := pure_ok h
  obtain ⟨front, short, grown⟩ := sweepUpTo_mono closes.extended.length_le
    (fun i first inside => powersAt?_eq_of_lt closes window (by omega) (closes.length ▸ inside)) swept
  have size := length_sweepUpTo short
  have before (m : Nat) : (min (window - 1) (m : Int)).toNat = min (window - 1).toNat m := by omega
  rw [closes.length] at size
  refine ⟨_, by rw [bullBearPower, short]; rfl, ?_, ?_⟩
  · simp only [before, closes.length]
    exact .padded (by omega) _ (grown.map _) (by rw [List.length_map]; omega) closes.le
  · simp only [before, closes.length]
    exact .padded (by omega) _ (grown.map _) (by rw [List.length_map]; omega) closes.le

theorem length_alma {values : List α} {window : Int} {offset : α} {sigma : Span α} {answers : List α}
    (h : alma values window offset sigma = .ok answers) : answers.length = values.length := by
  obtain ⟨width, _, h⟩ := bind_ok h
  obtain ⟨peak, _, h⟩ := bind_ok h
  obtain ⟨s, _, h⟩ := bind_ok h
  obtain ⟨weights, _, h⟩ := bind_ok h
  rw [← pure_ok h, List.length_map, List.length_range]

variable {config : BullBearConfig α} {front later : Powers α}

theorem smoothDirection_mono {after : List α × List DirectionColor} (bull : IsFront n front.bull later.bull)
    (bear : IsFront n front.bear later.bear) (valid : 1 ≤ config.window) (enough : config.window ≤ n)
    (h : config.smoothDirection later = .ok after) :
    ∃ before, config.smoothDirection front = .ok before ∧ IsFront n before.1 after.1 ∧
      IsFront n before.2 after.2 := by
  obtain ⟨smoothed, averaged, h⟩ := bind_ok h
  obtain rfl := pure_ok h
  have raw := bull.zipWith (· + ·) bear
  obtain ⟨short, average, grown⟩ := alma_mono raw.extended averaged
  have smooth : IsFront n short smoothed := ⟨grown, (length_alma average).trans raw.length⟩
  have direction := IsFront.padded (k := (config.window - 1).toNat) (by omega) (0.0 : α) (drop_mono grown _)
    (smooth.length_drop _) raw.le
  refine ⟨_, by simp only [BullBearConfig.smoothDirection, average, ok_bind, raw.length]; rfl, direction, ?_⟩
  have slopes (k : Nat) := drop_mono direction.extended k
  refine .padded (by omega) _ (zipWith_mono _ (slopes _) (slopes _)) ?_ raw.le
  rw [List.length_zipWith, direction.length_drop, direction.length_drop]
  omega

theorem rawDirection_mono (bull : IsFront n front.bull later.bull) (bear : IsFront n front.bear later.bear)
    (valid : 1 ≤ config.window) (enough : config.window ≤ n) :
    IsFront n (config.rawDirection front).1 (config.rawDirection later).1 ∧
      IsFront n (config.rawDirection front).2 (config.rawDirection later).2 := by
  have both := bull.zipWith Prod.mk bear
  have drawn := drop_mono both.extended (config.window - 1).toNat
  have size := both.length_drop (config.window - 1).toNat
  unfold BullBearConfig.rawDirection
  simp only [bull.length]
  refine ⟨.padded (by omega) _ (drawn.map _) (by rwa [List.length_map]) bull.le,
    .padded (by omega) _ (zipWith_mono _ (drawn.map _) drawn) ?_ bull.le⟩
  rw [List.length_zipWith, List.length_map]
  exact (Nat.min_self _).trans size

theorem direction_mono {after : List α × List DirectionColor} (bull : IsFront n front.bull later.bull)
    (bear : IsFront n front.bear later.bear) (valid : 1 ≤ config.window) (enough : config.window ≤ n)
    (h : config.direction later = .ok after) :
    ∃ before, config.direction front = .ok before ∧ IsFront n before.1 after.1 ∧
      IsFront n before.2 after.2 := by
  unfold BullBearConfig.direction at h ⊢
  by_cases smooth : config.smooth
  · rw [if_pos smooth] at h ⊢
    exact smoothDirection_mono bull bear valid enough h
  · rw [if_neg smooth] at h ⊢
    obtain rfl := Except.ok.inj h
    exact ⟨_, rfl, rawDirection_mono bull bear valid enough⟩

variable {times more : List Int} {direction longer : List α} {colors others : List DirectionColor}
  {start : Int}

omit [Arith α] in
theorem pointAt?_eq_of_lt (time : IsFront n times more) (value : IsFront n direction longer) {i : Int}
    (nonneg : 0 ≤ i) (inside : i < n) : pointAt? times direction i = pointAt? more longer i := by
  simp only [pointAt?, time.entry nonneg inside, value.entry nonneg inside]

omit [Arith α] in
/-- A trace looks back one bar, but never before bar `start`. -/
theorem traceStep?_eq_of_lt (time : IsFront n times more) (value : IsFront n direction longer)
    (color : IsFront n colors others) (nonneg : 0 ≤ start) {i : Int} (first : start ≤ i) (inside : i < n) :
    traceStep? times direction colors start i = traceStep? more longer others start i := by
  unfold traceStep?
  rw [color.entry (by omega) inside, pointAt?_eq_of_lt time value (by omega) inside]
  by_cases here : i = start
  · simp only [here, if_true]
  · simp only [here, if_false, color.entry (i := i - 1) (by omega) (by omega),
      pointAt?_eq_of_lt time value (i := i - 1) (by omega) (by omega)]

omit [Arith α] in
theorem splitDirection_mono {after : Traces α} (time : IsFront n times more)
    (value : IsFront n direction longer) (color : IsFront n colors others) (nonneg : 0 ≤ start)
    (h : splitDirection more longer others start = .ok after) :
    ∃ before, splitDirection times direction colors start = .ok before ∧ before.rising <+: after.rising ∧
      before.falling <+: after.falling := by
  obtain ⟨steps, swept, h⟩ := bind_ok h
  obtain rfl := pure_ok h
  obtain ⟨front, short, grown⟩ := sweepUpTo_mono value.extended.length_le
    (fun i first inside => traceStep?_eq_of_lt time value color nonneg first (value.length ▸ inside)) swept
  exact ⟨_, by rw [splitDirection, short]; rfl, (grown.filter _).flatMap _, (grown.filter _).flatMap _⟩

end BullBear

/-! ### Logistic regression -/

section Logistic
variable {xs ys : List α} {config : LogisticConfig α}

theorem samples_isFront (closes : IsFront n xs ys) :
    IsFront n (LogisticConfig.samples xs) (LogisticConfig.samples ys) where
  extended := zipWith_mono _ (range_mono closes.extended.length_le) closes.extended
  length := by rw [LogisticConfig.samples, List.length_zipWith, List.length_range, closes.length, Nat.min_self]

/-- A bar is trained on the bars up to it. -/
theorem scores_mono {later : List (Score α)} (closes : IsFront n xs ys) (h : config.scores ys = .ok later) :
    ∃ front, config.scores xs = .ok front ∧ IsFront n front later := by
  have bars := samples_isFront closes
  obtain ⟨front, short, grown⟩ := mapM_mono (range_mono bars.extended.length_le) (fun i member => by
    rw [← trailing_eq_of_lt bars.extended _ (List.mem_range.mp member)]) h
  have size := (mapM_ok_iff.mp short).length_eq
  rw [List.length_range, bars.length] at size
  exact ⟨front, short, grown, size.symm⟩

theorem rescaleAt?_eq_of_lt {raw longer : List α} (score : IsFront n raw longer)
    (closes : IsFront n xs ys) (window : Int) {i : Int} (nonneg : 0 ≤ i) (inside : i < n) :
    rescaleAt? raw (highest raw window) (lowest raw window) (highest xs window) (lowest xs window) i =
      rescaleAt? longer (highest longer window) (lowest longer window) (highest ys window)
        (lowest ys window) i := by
  have raws (f : List α → Option α) := (score.rolling window f).entry nonneg inside
  have windows (f : List α → Option α) := (closes.rolling window f).entry nonneg inside
  simp only [rescaleAt?, highest, lowest, raws, windows, score.entry nonneg inside]

theorem rescale_mono {raw longer later : List α} {window : Int} (score : IsFront n raw longer)
    (closes : IsFront n xs ys) (valid : 1 ≤ window) (enough : window ≤ n)
    (h : rescale longer ys window = .ok later) :
    ∃ front, rescale raw xs window = .ok front ∧ IsFront n front later := by
  obtain ⟨scaled, swept, h⟩ := bind_ok h
  obtain rfl := pure_ok h
  obtain ⟨front, short, grown⟩ := sweepUpTo_mono score.extended.length_le
    (fun i first inside => rescaleAt?_eq_of_lt score closes window (by omega) (score.length ▸ inside)) swept
  have size := length_sweepUpTo short
  have before (m : Nat) : (min window (m : Int)).toNat = min window.toNat m := by omega
  rw [score.length] at size
  refine ⟨_, by rw [rescale, short]; rfl, ?_⟩
  simp only [before, score.length]
  exact .padded (by omega) _ grown (by omega) score.le

theorem viewAt_eq_of_lt {loss curve prediction other : List α} (front : IsFront n loss curve)
    (beside : IsFront n prediction other) (byPrice : Bool) {i : Int} (first : 1 ≤ i) (inside : i < n)
    (close : α) :
    viewAt byPrice loss prediction i close = viewAt byPrice curve other i close := by
  unfold viewAt
  rw [front.entry (by omega) inside, front.entry (by omega) (by omega), beside.entry (by omega) inside,
    beside.entry (by omega) (by omega)]

end Logistic

end ChartOverlay
