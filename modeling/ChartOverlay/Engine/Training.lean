import ChartOverlay.Arith.Fault
import ChartOverlay.Arith.Sum
import ChartOverlay.Indicator.Extreme
import ChartOverlay.Engine.Outcome

/-!
# Training one weight per bar

A bar is scored by a model of a single weight, trained from zero by gradient descent on the window
that ends at the bar: a sample pairs the position of a bar with its close. The loss and the
prediction are then mapped into the range of recent closes. Each step divides and takes logarithms, and
fails where one of them has no answer.
-/

namespace ChartOverlay

open Arith

variable {α : Type} [Arith α]

def sigmoid (z : α) : Except Fault α := div? 1.0 (1.0 + exp (-z))

structure Sample (α : Type) where
  feature : α
  label : α
  deriving Repr, DecidableEq

/-- A label; an undefined or zero one counts as positive zero. -/
def labelOf (close : Option α) : α :=
  match close with
  | some x => if isZero x then 0.0 else x
  | none => 0.0

def predict (weight : α) (window : List (Sample α)) : Except Fault α :=
  sigmoid (total (window.map fun s => s.feature * weight))

/-- The least and the greatest hypothesis that enters a logarithm. -/
def hypothesisFloor : α := 1e-10

def hypothesisCeiling : α := 1.0 - 1e-10

/-- A hypothesis kept away from zero and one; one that is not a number becomes the ceiling. -/
def clampHypothesis (h : α) : α := greatest hypothesisFloor (least hypothesisCeiling h)

def logLikelihood (label h : α) : Except Fault α := do
  return label * (← log? h) + (1.0 - label) * (← log? (1.0 - h))

def crossEntropy (label hypothesis : α) : Except Fault α := do
  return -(← logLikelihood label (clampHypothesis hypothesis))

/-- The slope of the loss over a window of `period` bars. An empty window has a sum that is the whole number
zero. -/
def gradient (period : Int) (window : List (Sample α)) (hypothesis : α) : Except Fault α :=
  if period = 0 then .error (if window.isEmpty then .wholeDivisionByZero else .divisionByZero)
  else .ok (total (window.map fun s => s.feature * (hypothesis - s.label)) / ofInt period)

structure Model (α : Type) where
  weight : α
  loss : α
  deriving Repr

def Model.initial : Model α := ⟨0.0, 0.0⟩

/-- One step of gradient descent; the loss is that of the weight before the step. -/
def Model.step (rate : α) (period : Int) (window : List (Sample α)) (label : α) (m : Model α) :
    Except Fault (Model α) := do
  let hypothesis ← predict m.weight window
  let loss ← crossEntropy label hypothesis
  return { weight := m.weight - rate * (← gradient period window hypothesis), loss }

def Model.descend (step : Model α → Except Fault (Model α)) (m : Model α) : Nat → Except Fault (Model α)
  | 0 => .ok m
  | n + 1 => do descend step (← step m) n

structure Score (α : Type) where
  loss : α
  prediction : α
  deriving Repr, DecidableEq

def train (window : List (Sample α)) (label : α) (period : Int) (rate : α) (iterations : Int) :
    Except Fault (Score α) := do
  let m ← Model.descend (Model.step rate period window label) .initial iterations.toNat
  return { loss := m.loss, prediction := ← predict m.weight window }

/-- Trains on the `period` bars up to position `i`, newest first, as far as they exist. -/
def trainBar (features : List α) (labels : List (Option α)) (i period : Int) (rate : α) (iterations : Int) :
    Except Fault (Score α) := do
  let label ← entry? labels i
  let window ← sweep (fun back => do
    let feature ← entry? features (i - back)
    return { feature, label := labelOf (← entry? labels (i - back)) }) 0 (min period (i + 1)).toNat
  train window (labelOf label) period rate iterations

/-- Maps a value linearly from one range into another; a range without width maps to the middle. -/
def mapRange (value hi lo targetLo targetHi : Option α) : Except Fault α := do
  if same hi lo then
    return (← add? targetHi targetLo) / 2.0
  else
    let width ← sub? targetHi targetLo
    let above ← sub? value lo
    let scaled ← div? (width * above) (← sub? hi lo)
    add? (some scaled) targetLo

/-- The value at a bar mapped into the range of the closes, given the ranges of every window. -/
def rescaleAt? (raw : List α) (rawHi rawLo closeHi closeLo : List (Option α)) (i : Int) : Except Fault α := do
  let value ← entry? raw i
  mapRange (some value) (← entry? rawHi i) (← entry? rawLo i) (← entry? closeLo i) (← entry? closeHi i)

/-- Each value mapped from the range of its last `window` values into that of the closes; zero before
the first full window. -/
def rescale (raw closes : List α) (window : Int) : Except Fault (List α) := do
  let rawHi := highest raw window
  let rawLo := lowest raw window
  let closeHi := highest closes window
  let closeLo := lowest closes window
  let scaled ← sweepUpTo (rescaleAt? raw rawHi rawLo closeHi closeLo) window raw.length
  return List.replicate (min window raw.length).toNat 0.0 ++ scaled

end ChartOverlay
