import ChartOverlay.Arith.Fault
import ChartOverlay.Arith.Sum
import ChartOverlay.Indicator.Window

/-!
# Moving averages

`sma` is the plain mean of a window. The two exponential averages differ in their start: `ema` is
seeded with the mean of the first window and undefined before it, `emaContinuous` is seeded with the
first value and defined everywhere.
-/

namespace ChartOverlay

open Arith

variable {α : Type} [Arith α]

/-- The running states of a fold, its seed first. -/
def states {β : Type} (step : α → β → α) (seed : α) : List β → List α
  | [] => [seed]
  | x :: xs => seed :: states step (step seed x) xs

def sma (values : List α) (period : Int) : List (Option α) :=
  rolling period (fun window => defined (mean window)) values

def ema (values : List α) (period : Int) : List (Option α) :=
  if 1 ≤ period ∧ period ≤ values.length then
    let p := period.toNat
    let k : α := 2.0 / ofInt (period + 1)
    List.replicate (p - 1) none ++
      (states (fun last x => (x - last) * k + last) (mean (values.take p)) (values.drop p)).map defined
  else List.replicate values.length none

def emaContinuous (values : List α) (period : Int) : Except Fault (List α) :=
  match values with
  | [] => .ok []
  | x :: rest => do
    let k ← div? (2.0 : α) (← ofInt? (period + 1))
    return states (fun last y => y * k + last * (1.0 - k)) x rest

end ChartOverlay
