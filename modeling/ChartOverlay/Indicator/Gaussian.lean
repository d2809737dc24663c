import ChartOverlay.Arith.Fault
import ChartOverlay.Arith.Sum

/-!
# Gaussian weighted average

Every value is averaged with the ones before it under a bell curve over the lag, whose peak stands
at a fraction `offset` of the window.
-/

namespace ChartOverlay

open Arith

variable {α : Type} [Arith α]

/-- How many standard deviations of the curve the window spans: a whole number or a value. -/
inductive Span (α : Type)
  | whole (n : Int)
  | value (x : α)
  deriving Repr, DecidableEq

namespace Span

def deviation (window : Int) : Span α → Except Fault α
  | whole n => ratio? window n
  | value x => do div? (← ofInt? window) x

def isDegenerate : Span α → Bool
  | whole n => n ≤ 0
  | value x => le x 0.0

end Span

/-- The weight at distance `d` from the peak of a curve of standard deviation `s`. -/
def bellWeight (s : α) (d : Int) : Except Fault α := do
  return exp (← div? (← ofInt? (-(d * d))) ((2.0 : α) * s * s))

def bellWeights (n : Nat) (peak : Int) (s : α) : Except Fault (List α) :=
  (List.range n).mapM fun (lag : Nat) => bellWeight s (lag - peak)

/-- The average of the values, newest first, under the weights of their lags. -/
def weightedMean (weights newestFirst : List α) : α :=
  let used := weights.take newestFirst.length
  let norm := total used
  if isZero norm then 0.0
  else total (List.zipWith (fun x w => x * w) newestFirst used) / norm

/-- Near the start of the values only the lags that exist are used. -/
def alma (values : List α) (window : Int) (offset : α) (sigma : Span α) : Except Fault (List α) := do
  let peak ← floor? (offset * (← ofInt? (window - 1)))
  let s ← sigma.deviation window
  let weights ← bellWeights (min window values.length).toNat peak s
  return (List.range values.length).map fun i => weightedMean weights (values.take (i + 1)).reverse

end ChartOverlay
