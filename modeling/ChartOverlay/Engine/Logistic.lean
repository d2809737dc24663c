import ChartOverlay.Engine.Position
import ChartOverlay.Engine.Training
import ChartOverlay.History

/-!
# Logistic regression engine

Scores every bar by a model trained on the bars before it, maps the scores into the range of recent
closes and trades on the curve: by the side of it on which the close lies, or by its crossings with
the prediction.
-/

namespace ChartOverlay

open Arith

variable {α : Type} [Arith α]

structure LogisticConfig (α : Type) [Arith α] where
  /-- Bars in a training window. -/
  lookback : Int := 2
  /-- Bars in the window whose range a score is mapped from and into. -/
  normalization : Int := 2
  learningRate : α := 0.0009
  iterations : Int := 1000
  holdingPeriod : Int := 1
  /-- Whether to trade on the close and not on crossings. -/
  usePrice : Bool := true
  showCurves : Bool := false

namespace LogisticConfig

/-- No bar is trained for more steps than this. -/
def maxIterations : Int := 200

def effectiveIterations (config : LogisticConfig α) : Int := min config.iterations maxIterations

def minCandles (config : LogisticConfig α) : Int := config.normalization + 10

def isValid (config : LogisticConfig α) : Bool := 1 ≤ config.lookback && 1 ≤ config.normalization

def markers (config : LogisticConfig α) (history : History α) (loss prediction : List α) :
    Except Fault (List (Marker α)) :=
  let start := max config.normalization 1
  Trader.walk (viewAt config.usePrice loss prediction) config.holdingPeriod { } start
    (history.candles.drop start.toNat)

/-- The bars of a training window hold their number, counted from one, and their close. -/
def samples (closes : List α) : List (Sample α) :=
  (List.range closes.length).zipWith
    (fun (i : Nat) close => { feature := ofInt (i + 1), label := labelOf (some close) }) closes

/-- The score of every bar; zero before the first whole window. -/
def scores (config : LogisticConfig α) (closes : List α) : Except Fault (List (Score α)) :=
  let bars := samples closes
  (List.range bars.length).mapM fun (i : Nat) =>
    if i < config.lookback then .ok ⟨0.0, 0.0⟩
    else
      let window := (trailing config.lookback.toNat bars i).reverse
      match window with
      | [] => .ok ⟨0.0, 0.0⟩
      | newest :: _ =>
        train window newest.label config.lookback config.learningRate config.effectiveIterations

def lines (config : LogisticConfig α) (loss prediction : List (Point α)) : List (Line α) :=
  (if config.showCurves then
    [{ label := "Loss", color := "#2196F3", points := loss, width := 2 },
     { label := "Prediction", color := "#CDDC39", points := prediction, width := 2 }]
  else []) ++
  [{ label := "ML Signal Line", color := "rgba(33, 150, 243, 0.6)"
     points := loss, width := 1, style := some 2 }]

/-- The lines of two curves, drawn from the first whole range on. -/
def result (config : LogisticConfig α) (history : History α) (loss prediction : List α) : Result α :=
  let points (curve : List α) :=
    (List.zipWith Point.mk history.times curve).drop config.normalization.toNat
  { name := "ML Logistic Regression", lines := config.lines (points loss) (points prediction) }

def run (config : LogisticConfig α) (history : History α) : Except Fault (Outcome α) := do
  let closes := history.closes
  let scores ← config.scores closes
  let loss ← rescale (scores.map (·.loss)) closes config.normalization
  let prediction ← rescale (scores.map (·.prediction)) closes config.normalization
  let markers ← config.markers history loss prediction
  return { indicator := some (config.result history loss prediction), markers }

end LogisticConfig

end ChartOverlay
