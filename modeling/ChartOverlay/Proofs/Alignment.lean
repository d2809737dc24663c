import ChartOverlay.Indicator.Extreme
import ChartOverlay.Proofs.Growth
import ChartOverlay.Proofs.Moderate
import ChartOverlay.Proofs.Rescaling

/-!
# Where the entries of indicators stand

Every indicator has one entry for each value and none before its first whole window, whatever the values and the
parameters, even if a period is not positive or longer than the values. The one exception is the signal line, which
leaves out the undefined entries of its series and is cut off behind the last defined one: `indicators_stand` tells how
short it is, and that it is whole for values far from the end of the range of doubles.
-/

namespace ChartOverlay

open Arith

/-- A series with one entry for each of `n` values, of which none is defined before `first`, or at all without valid
parameters. -/
structure StandsFrom {β : Type} (n : Nat) (valid : Prop) (first : Int) (series : List (Option β)) : Prop where
  length : series.length = n
  late : ∀ (i : Nat) x, series[i]? = some (some x) → valid ∧ first ≤ i

section Standing
variable {β γ δ : Type} {n : Nat} {valid valid' : Prop} {first first' : Int}

theorem standsFrom_range {entry : Nat → Option β} (late : ∀ i x, entry i = some x → valid ∧ first ≤ i) :
    StandsFrom n valid first ((List.range n).map entry) where
  length := by rw [List.length_map, List.length_range]
  late i x found := by
    rw [List.getElem?_map] at found
    obtain ⟨j, there, here⟩ := Option.map_eq_some_iff.mp found
    obtain ⟨inside, same⟩ := List.getElem?_eq_some_iff.mp there
    rw [List.getElem_range] at same
    exact late i x (same ▸ here)

theorem standsFrom_rolling (period : Int) (f : List β → Option γ) (xs : List β) :
    StandsFrom xs.length (1 ≤ period) (period - 1) (rolling period f xs) := by
  refine standsFrom_range fun i x here => ?_
  split at here
  · rename_i whole
    exact ⟨whole.1, by omega⟩
  · cases here

theorem StandsFrom.zipDefined {xs : List (Option β)} {ys : List (Option γ)} (left : StandsFrom n valid first xs)
    (right : StandsFrom n valid' first' ys) (f : β → γ → δ) :
    StandsFrom n (valid ∧ valid') (max first first') (zipDefined f xs ys) where
  length := by rw [ChartOverlay.zipDefined, List.length_zipWith, left.length, right.length, Nat.min_self]
  late i z found := by
    rw [ChartOverlay.zipDefined, List.getElem?_zipWith] at found
    rcases here : xs[i]? with _ | _ | x
    · rw [here] at found
      cases found
    · rw [here] at found
      cases there : ys[i]? <;> rw [there] at found <;> cases found
    rcases there : ys[i]? with _ | _ | y
    · rw [here, there] at found
      cases found
    · rw [here, there] at found
      cases found
    have early := left.late i x here
    have early' := right.late i y there
    exact ⟨⟨early.1, early'.1⟩, max_le early.2 early'.2⟩

end Standing

section Series
variable {α : Type} [Arith α] (values : List α) (period : Int)

theorem standsFrom_sma : StandsFrom values.length (1 ≤ period) (period - 1) (sma values period) :=
  standsFrom_rolling period _ values

theorem standsFrom_stdev : StandsFrom values.length (1 ≤ period) (period - 1) (stdev values period) :=
  standsFrom_rolling period _ values

theorem standsFrom_ema : StandsFrom values.length (1 ≤ period) (period - 1) (ema values period) where
  length := length_ema values period
  late i x found := by
    unfold ema at found
    split at found
    · rename_i whole
      refine ⟨whole.1, ?_⟩
      by_contra early
      rw [List.getElem?_append_left (by rw [List.length_replicate]; omega), List.getElem?_replicate] at found
      split at found <;> cases found
    · rw [List.getElem?_replicate] at found
      split at found <;> cases found

theorem standsFrom_rsi : StandsFrom values.length (1 ≤ period) period (rsi values period) := by
  refine standsFrom_range fun i x here => ?_
  split at here
  · assumption
  · cases here

theorem standsFrom_regressionLine :
    StandsFrom values.length (1 ≤ period) (period - 1) (regressionLine values period) := by
  refine standsFrom_range fun i x here => ?_
  split at here
  · rename_i whole
    exact ⟨whole.1, by omega⟩
  · cases here

theorem standsFrom_macd (fast slow signal : Int) :
    StandsFrom values.length (1 ≤ fast ∧ 1 ≤ slow) (max fast slow - 1) (macd values fast slow signal).1 := by
  have line := (standsFrom_ema values fast).zipDefined (standsFrom_ema values slow) fun f s => f - s
  rwa [max_sub_sub_right] at line

theorem standsFrom_band (f : α → α → α) :
    StandsFrom values.length (1 ≤ period) (period - 1) (zipDefined f (sma values period) (stdev values period)) := by
  have band := (standsFrom_sma values period).zipDefined (standsFrom_stdev values period) f
  rwa [and_self, max_self] at band

theorem length_emaContinuous {averages : List α} (h : emaContinuous values period = .ok averages) :
    averages.length = values.length := by
  cases values with
  | nil =>
    obtain rfl := Except.ok.inj h
    rfl
  | cons x rest =>
    obtain ⟨span, -, h⟩ := bind_ok h
    obtain ⟨k, -, h⟩ := bind_ok h
    rw [← pure_ok h, length_states, List.length_cons]

end Series

/-! ### Signals -/

/-- Where the entries of a signal line stand: it ends with the last defined entry of its series, if there is one. -/
structure SignalStands (values : List Float) (fast slow signal : Int) : Prop where
  late : ∀ (i : Nat) x, (macd values fast slow signal).2[i]? = some (some x) →
    1 ≤ fast ∧ 1 ≤ slow ∧ 1 ≤ signal ∧ max fast slow + signal - 2 ≤ i
  length : ∃ stop, IsBlock (max fast slow - 1).toNat stop (macd values fast slow signal).1 ∧
    (macd values fast slow signal).2.length = if (max fast slow - 1).toNat < stop then stop else values.length
  whole : (macd values fast slow signal).2.length = values.length ↔
    (∀ (i : Nat) x, (macd values fast slow signal).1[i]? ≠ some (some x)) ∨
      ∃ x, (macd values fast slow signal).1[values.length - 1]? = some (some x)
  moderate : 1 ≤ fast → 1 ≤ slow → values.length + 1 < 2 ^ 53 → (∀ x ∈ values, Double.IsWithin (2 ^ 960) x) →
    (macd values fast slow signal).2.length = values.length

theorem signalStands (values : List Float) (fast slow signal : Int) : SignalStands values fast slow signal := by
  have sticky : ∀ x y : Float, isNaN y = true → isNaN (x + y) = true := fun _ _ => Double.isNaN_add
  obtain ⟨stop, block⟩ := isBlock_macd sticky values fast slow signal
  have line := standsFrom_macd values fast slow signal
  have length : (macd values fast slow signal).2.length = _ := length_signalLine block signal
  rw [line.length] at length
  refine ⟨?_, ⟨stop, block, length⟩, ?_, ?_⟩
  · intro i x found
    have first : ((max fast slow - 1).toNat : Int) + signal ≤ i + 1 :=
      (isAligned_signalLine sticky block signal).late i x found
    have member := List.mem_of_mem_take (List.mem_of_getElem? found)
    rw [List.mem_append, List.mem_replicate] at member
    obtain ⟨-, ⟨⟩⟩ | member := member
    obtain ⟨k, average⟩ := List.mem_iff_getElem?.mp member
    have smoothed := standsFrom_ema ((macd values fast slow signal).1.filterMap id) signal
    have size := (List.getElem?_eq_some_iff.mp average).1
    -- an average of no entries has none
    have some : (macd values fast slow signal).1.filterMap id ≠ [] := List.ne_nil_of_length_pos (by
      rw [← smoothed.length]
      exact Nat.zero_lt_of_lt size)
    obtain ⟨y, inside⟩ := List.exists_mem_of_ne_nil _ some
    obtain ⟨entry, there, ⟨⟩⟩ := List.mem_filterMap.mp inside
    obtain ⟨j, place⟩ := List.mem_iff_getElem?.mp there
    obtain ⟨⟨valid, valid'⟩, -⟩ := line.late j y place
    exact ⟨valid, valid', (smoothed.late k x average).1, by omega⟩
  · rw [length]
    by_cases filled : (max fast slow - 1).toNat < stop
    · rw [if_pos filled]
      have entry := (block _).mpr ⟨Nat.le_refl _, filled⟩
      have most := block.stop_le filled
      rw [line.length] at most
      have last : (∃ x, (macd values fast slow signal).1[values.length - 1]? = some (some x)) ↔
          stop = values.length := by
        rw [block]
        omega
      rw [last]
      refine ⟨Or.inr, fun h => h.resolve_left fun none => ?_⟩
      obtain ⟨x, found⟩ := entry
      exact none _ x found
    · rw [if_neg filled]
      refine iff_of_true rfl (Or.inl fun i x found => ?_)
      have inside := (block i).mp ⟨x, found⟩
      omega
  · intro valid valid' short all
    exact Double.length_signal_of_isWithin (Nat.le_refl _) short all valid valid' signal

/-! ### All indicators -/

/-- Where the entries of all indicators of some values stand. -/
structure IndicatorsStand (values : List Float) : Prop where
  sma : ∀ period, StandsFrom values.length (1 ≤ period) (period - 1) (sma values period)
  ema : ∀ period, StandsFrom values.length (1 ≤ period) (period - 1) (ema values period)
  emaContinuous : ∀ period averages, emaContinuous values period = .ok averages → averages.length = values.length
  rsi : ∀ period, StandsFrom values.length (1 ≤ period) period (rsi values period)
  stdev : ∀ period, StandsFrom values.length (1 ≤ period) (period - 1) (stdev values period)
  macd : ∀ fast slow signal,
    StandsFrom values.length (1 ≤ fast ∧ 1 ≤ slow) (max fast slow - 1) (macd values fast slow signal).1
  signal : ∀ fast slow signal, SignalStands values fast slow signal
  upper : ∀ period width, StandsFrom values.length (1 ≤ period) (period - 1) (bollinger values period width).upper
  middle : ∀ period width, StandsFrom values.length (1 ≤ period) (period - 1) (bollinger values period width).middle
  lower : ∀ period width, StandsFrom values.length (1 ≤ period) (period - 1) (bollinger values period width).lower
  highest : ∀ period, StandsFrom values.length (1 ≤ period) (period - 1) (highest values period)
  lowest : ∀ period, StandsFrom values.length (1 ≤ period) (period - 1) (lowest values period)
  highestBars : ∀ period, StandsFrom values.length (1 ≤ period) (period - 1) (highestBars values period)
  lowestBars : ∀ period, StandsFrom values.length (1 ≤ period) (period - 1) (lowestBars values period)
  alma : ∀ window offset sigma answers, alma values window offset sigma = .ok answers →
    answers.length = values.length
  regressionLine : ∀ length, StandsFrom values.length (1 ≤ length) (length - 1) (regressionLine values length)

/-- Every indicator has one entry for each value and none before its first window, except that a signal line ends with
the last defined entry of its series. -/
theorem indicators_stand (values : List Float) : IndicatorsStand values where
  sma := standsFrom_sma values
  ema := standsFrom_ema values
  emaContinuous period _ := length_emaContinuous values period
  rsi := standsFrom_rsi values
  stdev := standsFrom_stdev values
  macd := standsFrom_macd values
  signal := signalStands values
  upper period _ := standsFrom_band values period _
  middle period _ := standsFrom_sma values period
  lower period _ := standsFrom_band values period _
  highest period := standsFrom_rolling period _ values
  lowest period := standsFrom_rolling period _ values
  highestBars period := standsFrom_rolling period _ values
  lowestBars period := standsFrom_rolling period _ values
  alma _ _ _ _ := length_alma
  regressionLine := standsFrom_regressionLine values

theorem indicators_stand_of_gappedCloses :
    StandsFrom 5 True 1 (sma gappedCloses 2) ∧
      (∃ averages, emaContinuous gappedCloses 3 = .ok averages ∧ averages.length = 5) ∧
      (macd gappedCloses 1 2 2).2.length ≠ 5 ∧ (macd [2.0, 2.0, 2.0, 2.0] 1 2 2).2.length = 4 := by
  have closes := indicators_stand gappedCloses
  have first := closes.sma 2
  refine ⟨⟨first.length, fun i x found => ⟨trivial, (first.late i x found).2⟩⟩, ?_, ?_, ?_⟩
  · have ran : (emaContinuous gappedCloses 3).isOk = true := by decide +kernel
    cases averaged : emaContinuous gappedCloses 3 with
    | error fault =>
      rw [averaged] at ran
      cases ran
    | ok averages => exact ⟨averages, rfl, closes.emaContinuous 3 averages averaged⟩
  · intro same
    have line : (macd gappedCloses 1 2 2).1 = [none, some 0.5, some 0.8333333333333335, none, none] := by
      decide +kernel
    rcases (closes.signal 1 2 2).whole.mp same with none | ⟨x, found⟩
    · exact none 1 0.5 (by rw [line]; rfl)
    · rw [line] at found
      cases found
  · refine ((indicators_stand [2.0, 2.0, 2.0, 2.0]).signal 1 2 2).moderate (by decide) (by decide) (by decide) ?_
    intro x member
    obtain rfl : x = 2.0 := List.eq_of_mem_replicate (n := 4) member
    rw [Double.IsWithin, Double.ratio_two, abs_two]
    exact ⟨rfl, le_self_pow₀ one_le_two (by decide)⟩

/-- A signal line may be shorter than the values. -/
theorem not_signal_stands : ¬∀ (values : List Float) (fast slow signal : Int),
    (macd values fast slow signal).2.length = values.length :=
  fun all => absurd (all [1.0, 0.0 / 0.0] 1 1 1) (by decide +kernel)

end ChartOverlay
