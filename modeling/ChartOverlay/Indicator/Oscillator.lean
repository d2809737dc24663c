import ChartOverlay.Indicator.Average

/-!
# Oscillators and bands

The relative strength index, the convergence of two exponential averages with its signal line, and
bands around an average at a multiple of the standard deviation.
-/

namespace ChartOverlay

open Arith

variable {α : Type} [Arith α]

def deltas (values : List α) : List α := List.zipWith (fun next x => next - x) (values.drop 1) values

def gain (delta : α) : α := if gt delta 0.0 then delta else 0.0

def loss (delta : α) : α := if lt delta 0.0 then -delta else 0.0

/-- The average of the gains or losses up to bar `i`, given one per step. The first window is a plain
mean; later bars weigh the mean of all earlier steps against the last step. -/
def strengthAverage (steps : List α) (period i : Nat) : α :=
  if i = period then mean (steps.take period)
  else
    let before := mean (steps.take (i - 1))
    let last := (steps[i - 1]?).getD 0.0
    (before * ofInt (period - 1) + last) / ofInt period

/-- The index of a relative strength; without losses the strength counts as one hundred. -/
def strengthIndex (averageGain averageLoss : α) : α :=
  let strength := if isZero averageLoss then 100.0 else averageGain / averageLoss
  100.0 - 100.0 / (1.0 + strength)

def rsi (values : List α) (period : Int) : List (Option α) :=
  let steps := deltas values
  let gains := steps.map gain
  let losses := steps.map loss
  let p := period.toNat
  (List.range values.length).map fun (i : Nat) =>
    if 1 ≤ period ∧ period ≤ i then
      defined (strengthIndex (strengthAverage gains p i) (strengthAverage losses p i))
    else none

/-- The population standard deviation of a window of `n` values. -/
def deviation (n : Int) (window : List α) : α :=
  let m := mean window
  sqrt (sum (window.map fun x => (x - m) * (x - m)) / ofInt n)

def stdev (values : List α) (period : Int) : List (Option α) :=
  rolling period (fun window => defined (deviation period window)) values

/-- The exponential average of the defined entries, each placed where its entry stands counted from
the first defined one. -/
def signalLine (line : List (Option α)) (period : Int) : List (Option α) :=
  let head := (line.takeWhile Option.isNone).length
  (List.replicate head none ++ ema (line.filterMap id) period).take line.length

/-- The fast average less the slow one, and its signal line. -/
def macd (values : List α) (fast slow signal : Int) : List (Option α) × List (Option α) :=
  let line := zipDefined (fun f s => f - s) (ema values fast) (ema values slow)
  (line, signalLine line signal)

structure Bands (α : Type) where
  upper : List (Option α)
  middle : List (Option α)
  lower : List (Option α)

/-- The average and the lines at `width` standard deviations above and below it. -/
def bollinger (values : List α) (period : Int) (width : α) : Bands α :=
  let middle := sma values period
  let spread := stdev values period
  { upper := zipDefined (fun m d => m + d * width) middle spread
    middle
    lower := zipDefined (fun m d => m - d * width) middle spread }

end ChartOverlay
