import ChartOverlay.Indicator.Calculator
import ChartOverlay.Script.Classification

/-!
# Overlays

A batch of scripts over a candle history: the results of every script in order, and the markers of
all of them in order of time. A counter over the batch hands out default colors.
-/

namespace ChartOverlay

variable {α : Type} [Arith α]

structure Bundle (α : Type) where
  results : List (Result α) := []
  markers : List (Marker α) := []
  /-- The default-color counter after the batch. -/
  nextColorIndex : Int := 0
  deriving Repr, DecidableEq

inductive OverlayError
  | script (error : ScriptError)
  | calculation (fault : Fault)
  deriving Repr, DecidableEq

def OverlayError.message : OverlayError → String
  | script error => error.message
  | calculation fault => fault.message

namespace Bundle

def ofIndicators? (history : History α) (colorIndex : Int) : List (Descriptor α) → Except Fault (Bundle α)
  | [] => .ok { nextColorIndex := colorIndex }
  | d :: rest => do
    let result ← d.calculate history colorIndex
    let later ← ofIndicators? history (colorIndex + 1) rest
    return { later with results := result.toList ++ later.results }

def ofScript? (history : History α) (colorIndex : Int) (script : Text) :
    Except OverlayError (Bundle α) := do
  let asked : Script α ← (Script.ofText? script).mapError .script
  match asked with
  | .generic indicators => (ofIndicators? history colorIndex indicators).mapError .calculation
  | .engine engine =>
    let outcome ← (engine.compute history).mapError .calculation
    return { results := outcome.indicator.toList, markers := outcome.markers, nextColorIndex := colorIndex }

/-- The bundles of scripts in order, each from the color counter that the one before it left. -/
def ofScripts? (history : History α) (colorIndex : Int) : List Text → Except OverlayError (Bundle α)
  | [] => .ok { nextColorIndex := colorIndex }
  | script :: rest => do
    let first ← ofScript? history colorIndex script
    let later ← ofScripts? history first.nextColorIndex rest
    return {
      results := first.results ++ later.results
      markers := first.markers ++ later.markers
      nextColorIndex := later.nextColorIndex }

/-- The bundle with its markers in order of time; markers of one time keep their order. -/
def sorted (b : Bundle α) : Bundle α := { b with markers := b.markers.mergeSort (·.time ≤ ·.time) }

end Bundle

/-- The overlays of a batch of scripts, from a color counter on. -/
def overlays? (history : History α) (scripts : List Text) (colorIndex : Int) :
    Except OverlayError (Bundle α) :=
  Bundle.sorted <$> Bundle.ofScripts? history colorIndex scripts

/-- Overlays while candles arrive: each step adds candles and computes its scripts over all of them. -/
structure SessionStep (α : Type) where
  candles : List (Candle α) := []
  scripts : List Text

inductive SessionError
  | history (d : Disorder)
  | overlay (error : OverlayError)
  deriving Repr, DecidableEq

/-- Every step starts from the color counter of the last step that succeeded. -/
def session (candles : List (Candle α)) (colorIndex : Int) :
    List (SessionStep α) → List (Except SessionError (Bundle α))
  | [] => []
  | step :: rest =>
    let candles := candles ++ step.candles
    let answer := do
      let history ← (History.ofCandles? candles).mapError .history
      (overlays? history step.scripts colorIndex).mapError .overlay
    let next := match answer with
      | .ok bundle => bundle.nextColorIndex
      | .error _ => colorIndex
    answer :: session candles next rest

end ChartOverlay
