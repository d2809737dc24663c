import ChartOverlay.Engine.Regression
import ChartOverlay.Indicator.Gaussian
import ChartOverlay.Indicator.Oscillator
import ChartOverlay.Proofs.Partial
import Mathlib.Data.List.TakeWhile

/-!
# Causal series

A series over a list of values is causal if it says of each value what it would say without the later ones:
where the list grows, the series only gets longer. Every indicator is causal, whether it looks at a window,
runs on from its first value or drops and pads entries.
-/

namespace ChartOverlay

section Growth
variable {α β γ : Type}

/-- More values do not change what stands before them. -/
def Causal (f : List α → List β) : Prop := ∀ ⦃xs ys⦄, xs <+: ys → f xs <+: f ys

/-! ### Lists that grow -/

variable {xs ys : List α}

theorem take_eq_of_le (extended : xs <+: ys) {n : Nat} (le : n ≤ xs.length) : xs.take n = ys.take n := by
  obtain ⟨rest, rfl⟩ := extended
  rw [List.take_append_of_le_length le]

theorem getElem?_eq_of_lt (extended : xs <+: ys) {i : Nat} (inside : i < xs.length) : xs[i]? = ys[i]? := by
  obtain ⟨rest, rfl⟩ := extended
  rw [List.getElem?_append_left inside]

theorem map_range_mono {f g : Nat → β} {m n : Nat} (le : m ≤ n) (agree : ∀ i < m, f i = g i) :
    (List.range m).map f <+: (List.range n).map g := by
  rw [List.map_congr_left fun i member => agree i (List.mem_range.mp member)]
  exact (range_mono le).map g

theorem replicate_mono (x : α) {m n : Nat} (le : m ≤ n) : List.replicate m x <+: List.replicate n x := by
  obtain ⟨k, rfl⟩ := Nat.exists_eq_add_of_le le
  rw [List.replicate_add]
  exact List.prefix_append _ _

theorem zipWith_mono (f : α → β → γ) {us vs : List β} (left : xs <+: ys) (right : us <+: vs) :
    List.zipWith f xs us <+: List.zipWith f ys vs := by
  induction xs generalizing ys us vs with
  | nil => exact List.nil_prefix
  | cons x xs ih =>
    cases us with
    | nil => exact List.nil_prefix
    | cons u us =>
      obtain ⟨ys, rfl, more⟩ := List.cons_prefix_iff.mp left
      obtain ⟨vs, rfl, others⟩ := List.cons_prefix_iff.mp right
      exact List.cons_prefix_cons.mpr ⟨rfl, ih more others⟩

theorem take_mono (extended : xs <+: ys) {m n : Nat} (le : m ≤ n) : xs.take m <+: ys.take n := by
  have front : xs.take m <+: ys := (List.take_prefix m xs).trans extended
  have size := front.length_le
  refine List.prefix_of_prefix_length_le front (List.take_prefix n ys) ?_
  simp only [List.length_take] at size ⊢
  omega

theorem drop_mono (extended : xs <+: ys) (n : Nat) : xs.drop n <+: ys.drop n := by
  obtain ⟨rest, rfl⟩ := extended
  rw [List.drop_append]
  exact List.prefix_append _ _

end Growth

open Arith

variable {α : Type} [Arith α]

/-! ### Windows -/

section Windows
variable {β γ δ : Type}

theorem trailing_eq_of_lt {xs ys : List β} (extended : xs <+: ys) (n : Nat) {i : Nat}
    (inside : i < xs.length) : trailing n xs i = trailing n ys i := by
  rw [trailing, trailing, take_eq_of_le extended inside]

theorem rolling_causal (period : Int) (f : List β → Option γ) : Causal (rolling period f) := by
  intro xs ys extended
  refine map_range_mono extended.length_le fun i inside => ?_
  rw [trailing_eq_of_lt extended _ inside]

theorem Causal.zipDefined (h : β → γ → δ) {ξ : Type} {f : List ξ → List (Option β)}
    {g : List ξ → List (Option γ)} (left : Causal f) (right : Causal g) :
    Causal fun xs => zipDefined h (f xs) (g xs) :=
  fun _ _ extended => zipWith_mono _ (left extended) (right extended)

end Windows

theorem sma_causal (period : Int) : Causal fun values : List α => sma values period :=
  rolling_causal _ _

theorem stdev_causal (period : Int) : Causal fun values : List α => stdev values period :=
  rolling_causal _ _

theorem regressionLine_causal (length : Int) : Causal fun closes : List α => regressionLine closes length := by
  intro xs ys extended
  refine map_range_mono extended.length_le fun i inside => ?_
  have positions := trailing_eq_of_lt ((range_mono extended.length_le).map fun (k : Nat) => (ofInt k : α))
    length.toNat (i := i) (by simpa using inside)
  dsimp only
  rw [positions, trailing_eq_of_lt extended _ inside]

/-! ### Exponential averages -/

omit [Arith α] in
theorem states_mono {β : Type} (step : α → β → α) (seed : α) {xs ys : List β} (extended : xs <+: ys) :
    states step seed xs <+: states step seed ys := by
  induction xs generalizing seed ys with
  | nil => cases ys <;> simp [states]
  | cons x xs ih =>
    obtain ⟨ys, rfl, more⟩ := List.cons_prefix_iff.mp extended
    exact List.cons_prefix_cons.mpr ⟨rfl, ih _ more⟩

theorem ema_causal (period : Int) : Causal fun values : List α => ema values period := by
  intro xs ys extended
  have le := extended.length_le
  dsimp only [ema]
  by_cases whole : 1 ≤ period ∧ period ≤ xs.length
  · rw [if_pos whole, if_pos ⟨whole.1, by omega⟩, take_eq_of_le extended (by omega)]
    exact (List.prefix_append_right_inj _).mpr ((states_mono _ _ (drop_mono extended _)).map _)
  · rw [if_neg whole]
    split
    · exact (replicate_mono none (by omega)).trans (List.prefix_append _ _)
    · exact replicate_mono none le

/-- The average that runs on from the first value fails only with its factor. -/
theorem emaContinuous_mono {xs ys later : List α} {period : Int} (extended : xs <+: ys)
    (h : emaContinuous ys period = .ok later) :
    ∃ front, emaContinuous xs period = .ok front ∧ front <+: later := by
  cases xs with
  | nil => exact ⟨[], rfl, List.nil_prefix⟩
  | cons x xs =>
    obtain ⟨ys, rfl, more⟩ := List.cons_prefix_iff.mp extended
    obtain ⟨n, whole, h⟩ := bind_ok h
    obtain ⟨k, factor, h⟩ := bind_ok h
    obtain rfl := pure_ok h
    refine ⟨states (fun last y => y * k + last * (1.0 - k)) x xs, ?_, states_mono _ _ more⟩
    simp only [emaContinuous, whole, factor, ok_bind]
    rfl

/-! ### Oscillators -/

theorem deltas_mono {xs ys : List α} (extended : xs <+: ys) : deltas xs <+: deltas ys :=
  zipWith_mono _ (drop_mono extended 1) extended

theorem strengthAverage_eq_of_le {steps more : List α} (extended : steps <+: more) {period i : Nat}
    (first : 1 ≤ i) (le : i ≤ steps.length) :
    strengthAverage steps period i = strengthAverage more period i := by
  unfold strengthAverage
  split
  · rw [take_eq_of_le extended (by omega)]
  · rw [take_eq_of_le extended (by omega), getElem?_eq_of_lt extended (by omega)]

theorem rsi_causal (period : Int) : Causal fun values : List α => rsi values period := by
  intro xs ys extended
  refine map_range_mono extended.length_le fun i inside => ?_
  by_cases whole : 1 ≤ period ∧ period ≤ i
  · have steps := deltas_mono extended
    have size : i ≤ (deltas xs).length := by
      simp only [deltas, List.length_zipWith, List.length_drop]
      omega
    rw [if_pos whole, if_pos whole,
      strengthAverage_eq_of_le (steps.map gain) (by omega) (by simpa using size),
      strengthAverage_eq_of_le (steps.map loss) (by omega) (by simpa using size)]
  · rw [if_neg whole, if_neg whole]

/-- Dropping the undefined entries and padding at the front keep a series causal: as long as no entry is
defined the signal line is undefined too, and afterwards the padding does not change. -/
theorem signalLine_mono {line more : List (Option α)} (extended : line <+: more) (period : Int) :
    signalLine line period <+: signalLine more period := by
  refine take_mono ?_ extended.length_le
  obtain ⟨rest, rfl⟩ := extended
  by_cases undefined : (line.takeWhile Option.isNone).length = line.length
  · have whole : line.takeWhile Option.isNone = line := (List.takeWhile_prefix _).eq_of_length undefined
    have dropped : line.filterMap id = [] := by
      refine List.filterMap_eq_nil_iff.mpr fun x member => ?_
      exact Option.isNone_iff_eq_none.mp (List.takeWhile_eq_self_iff.mp whole x member)
    have nothing : ema ([] : List α) period = [] := by
      rw [ema, if_neg (by simp only [List.length_nil]; omega)]
      rfl
    rw [undefined, dropped, nothing, List.append_nil, List.takeWhile_append, if_pos undefined,
      List.length_append]
    exact (replicate_mono none (Nat.le_add_right _ _)).trans (List.prefix_append _ _)
  · rw [List.takeWhile_append, if_neg undefined, List.filterMap_append]
    exact (List.prefix_append_right_inj _).mpr (ema_causal period (List.prefix_append _ _))

theorem macd_causal (fast slow signal : Int) :
    (Causal fun values : List α => (macd values fast slow signal).1) ∧
      Causal fun values : List α => (macd values fast slow signal).2 := by
  have line := (ema_causal fast).zipDefined (fun (f s : α) => f - s) (ema_causal slow)
  exact ⟨line, fun _ _ extended => signalLine_mono (line extended) signal⟩

theorem bollinger_causal (period : Int) (width : α) :
    (Causal fun values : List α => (bollinger values period width).upper) ∧
      (Causal fun values : List α => (bollinger values period width).middle) ∧
      Causal fun values : List α => (bollinger values period width).lower :=
  ⟨(sma_causal period).zipDefined _ (stdev_causal period), sma_causal period,
    (sma_causal period).zipDefined _ (stdev_causal period)⟩

/-! ### Weighted averages -/

theorem weightedMean_eq_of_take {weights more newestFirst : List α}
    (same : weights.take newestFirst.length = more.take newestFirst.length) :
    weightedMean weights newestFirst = weightedMean more newestFirst := by
  rw [weightedMean, weightedMean, same]

/-- A longer list may ask for more weights, but only for lags that no earlier bar has. -/
theorem alma_mono {xs ys later : List α} {window : Int} {offset : α} {sigma : Span α} (extended : xs <+: ys)
    (h : alma ys window offset sigma = .ok later) :
    ∃ front, alma xs window offset sigma = .ok front ∧ front <+: later := by
  obtain ⟨width, whole, h⟩ := bind_ok h
  obtain ⟨peak, floored, h⟩ := bind_ok h
  obtain ⟨s, deviation, h⟩ := bind_ok h
  obtain ⟨weights, weighed, h⟩ := bind_ok h
  obtain rfl := pure_ok h
  have le := extended.length_le
  have lags : (min window xs.length).toNat ≤ (min window ys.length).toNat := by omega
  obtain ⟨first, some, short⟩ := mapM_mono (range_mono lags) (fun _ _ => rfl) weighed
  have size := (mapM_ok_iff.mp some).length_eq
  have more := (mapM_ok_iff.mp weighed).length_eq
  rw [List.length_range] at size more
  refine ⟨(List.range xs.length).map fun i => weightedMean first (xs.take (i + 1)).reverse, ?_, ?_⟩
  · simp only [alma, whole, floored, deviation, ok_bind, bellWeights, some]
    rfl
  · refine map_range_mono le fun i inside => ?_
    rw [take_eq_of_le extended inside]
    refine weightedMean_eq_of_take ?_
    -- either all lags of the bar have a weight, or the window is shorter and both lists hold all of it
    by_cases enough : i + 1 ≤ first.length
    · rw [List.length_reverse, List.length_take, Nat.min_eq_left (by omega), take_eq_of_le short enough]
    · rw [short.eq_of_length (by omega)]

end ChartOverlay
