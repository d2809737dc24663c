import ChartOverlay.Arith.Fault
import ChartOverlay.Arith.Sum
import ChartOverlay.Engine.Outcome
import ChartOverlay.History
import ChartOverlay.Indicator.Average

/-!
# Linear regression engine

The least-squares line through the closes of a window, evaluated at its last bar, and an exponential
average of the closes.
-/

namespace ChartOverlay

open Arith

variable {α : Type} [Arith α]

/-- Pearson's correlation of two windows of one length; zero if one of them does not vary. -/
def correlation (xs ys : List α) : α :=
  let n : α := ofInt xs.length
  let sumX := sum xs
  let sumY := sum ys
  let covariance := n * sum (List.zipWith (· * ·) xs ys) - sumX * sumY
  let variances :=
    (n * sum (xs.map fun x => x * x) - sumX * sumX) * (n * sum (ys.map fun y => y * y) - sumY * sumY)
  if xs.length < 2 then 0.0
  else if le variances 0.0 then 0.0
  else covariance / sqrt variances

def populationDeviation (xs : List α) : α :=
  let m := mean xs
  if xs.length < 2 then 0.0
  else sqrt (sum (xs.map fun x => (x - m) * (x - m)) / ofInt xs.length)

/-- The line through a window of values at the given positions, evaluated at a position; the mean if
the positions do not vary. -/
def fittedValue (xs ys : List α) (position : α) : α :=
  let meanX := mean xs
  let meanY := mean ys
  let spreadX := populationDeviation xs
  if isZero spreadX then meanY
  else
    let slope := correlation xs ys * (populationDeviation ys / spreadX)
    let intercept := meanY - slope * meanX
    position * slope + intercept

def regressionLine (closes : List α) (length : Int) : List (Option α) :=
  let positions : List α := (List.range closes.length).map fun (i : Nat) => ofInt i
  (List.range closes.length).map fun (i : Nat) =>
    if 1 ≤ length ∧ length ≤ i + 1 then
      let n := length.toNat
      some (fittedValue (trailing n positions i) (trailing n closes i) (ofInt i))
    else none

structure RegressionConfig where
  regressionLength : Int := 14
  emaLength : Int := 20
  deriving Repr, DecidableEq

namespace RegressionConfig

def minCandles (config : RegressionConfig) : Int := config.regressionLength + 5

def isValid (config : RegressionConfig) : Bool := 1 ≤ config.regressionLength && 1 ≤ config.emaLength

/-- The regression line and an average, drawn from its first whole window on. -/
def result (config : RegressionConfig) (history : History α) (average : List α) : Result α :=
  let averagePoints := (List.zipWith Point.mk history.times average).drop (config.emaLength - 1).toNat
  { name := "ML2 Linear Regression + EMA"
    lines :=
      [{ label := "Linear Regression", color := "#FF0000"
         points := pointsOf history.times (regressionLine history.closes config.regressionLength), width := 2 },
       { label := s!"EMA {config.emaLength}", color := "#2196F3", points := averagePoints, width := 2 }] }

def run (config : RegressionConfig) (history : History α) : Except Fault (Outcome α) := do
  let average ← emaContinuous history.closes config.emaLength
  return { indicator := some (config.result history average) }

end RegressionConfig

end ChartOverlay
