import ChartOverlay.Arith.Fault
import ChartOverlay.Engine.Outcome
import ChartOverlay.History
import ChartOverlay.Indicator.Extreme
import ChartOverlay.Indicator.Gaussian

/-!
# Bull and bear power engine

Bull power is the distance of a close from the lowest close of its window, bear power that from the
highest, each extended by its rate per bar. Their combination is a direction, drawn as a rising and
a falling trace.
-/

namespace ChartOverlay

open Arith

variable {α : Type} [Arith α]

def extendedGap (height : α) (barsAgo : Int) : Except Fault α := do
  if barsAgo = 0 then return height
  else return height + height / (← ofInt? barsAgo)

/-- A gap to an extreme so many bars ago, if it is positive; an extreme at the bar itself counts as
one bar ago. -/
def power (gap : α) (barsAgo : Option Nat) : Except Fault (Option α) := do
  let x ← extendedGap gap (max (barsAgo.getD 0) 1 : Nat)
  return if gt x 0.0 then some x else none

structure Powers (α : Type) where
  bull : List α
  bear : List α
  deriving Repr, DecidableEq

/-- Bull and bear power at a bar, given the extremes of every window and how long ago they occurred. Bull
power is not negative and bear power not positive. -/
def powersAt? (closes : List α) (highs lows : List (Option α)) (highAges lowAges : List (Option Nat)) (i : Int) :
    Except Fault (α × α) := do
  let close ← entry? closes i
  let bear ← power (← sub? (← entry? highs i) (some close)) (← entry? highAges i)
  let bull ← power (← sub? (some close) (← entry? lows i)) (← entry? lowAges i)
  return (bull.getD 0.0, (bear.map fun x => -x).getD 0.0)

/-- Both powers of every bar; zero before the first full window. -/
def bullBearPower (closes : List α) (window : Int) : Except Fault (Powers α) := do
  let highs := highest closes window
  let lows := lowest closes window
  let highAges := highestBars closes window
  let lowAges := lowestBars closes window
  let powers ← sweepUpTo (powersAt? closes highs lows highAges lowAges) (window - 1) closes.length
  let before := List.replicate (min (window - 1) closes.length).toNat (0.0 : α)
  return { bull := before ++ powers.map (·.1), bear := before ++ powers.map (·.2) }

inductive DirectionColor
  | green
  | red
  | yellow
  deriving Repr, DecidableEq

def DirectionColor.name : DirectionColor → String
  | green => "green"
  | red => "red"
  | yellow => "yellow"

def DirectionColor.ofName? (name : Text) : Option DirectionColor :=
  [green, red, yellow].find? (·.name == name)

/-- The points of the direction where it rises or keeps level, and where it falls. -/
structure Traces (α : Type) where
  rising : List (Point α)
  falling : List (Point α)
  deriving Repr, DecidableEq

def pointAt? (times : List Int) (direction : List α) (i : Int) : Except Fault (Point α) := do
  return { time := ← entry? times i, value := ← entry? direction i }

/-- Whether the direction rises or keeps level at bar `i`, and what its trace gets there. A trace that is
entered after bar `start` first repeats the point of the bar before, so that the two traces meet. -/
def traceStep? (times : List Int) (direction : List α) (colors : List DirectionColor) (start i : Int) :
    Except Fault (Bool × List (Point α)) := do
  let rises : Bool := (← entry? colors i) ≠ .red
  if i = start then return (rises, [← pointAt? times direction i])
  else
    let before : Bool := (← entry? colors (i - 1)) ≠ .red
    if rises = before then return (rises, [← pointAt? times direction i])
    else return (rises, [← pointAt? times direction (i - 1), ← pointAt? times direction i])

/-- Splits a direction into its traces from bar `start` on. -/
def splitDirection (times : List Int) (direction : List α) (colors : List DirectionColor) (start : Int) :
    Except Fault (Traces α) := do
  let steps ← sweepUpTo (traceStep? times direction colors start) start direction.length
  return { rising := (steps.filter (·.1)).flatMap (·.2), falling := (steps.filter (!·.1)).flatMap (·.2) }

structure BullBearConfig (α : Type) where
  window : Int := 10
  smooth : Bool := true
  smoothFactor : Int := 5
  sigma : Span α := .whole 6
  deriving Repr, DecidableEq

namespace BullBearConfig

def minCandles (config : BullBearConfig α) : Int := config.window + 5

def isValid (config : BullBearConfig α) : Bool :=
  1 ≤ config.window && 1 ≤ config.smoothFactor && !config.sigma.isDegenerate

/-- Where the peak of the smoothing curve stands. -/
def peakOffset : α := 0.9

def slopeColor (next last : α) : DirectionColor :=
  if gt next last then .green else if lt next last then .red else .yellow

/-- A direction against bull and bear power themselves. -/
def powerColor (direction bull bear : α) : DirectionColor :=
  if gt direction bull then .green else if lt direction bear then .red else .yellow

/-- The smoothed sum of the powers, colored by its slope. -/
def smoothDirection (config : BullBearConfig α) (powers : Powers α) :
    Except Fault (List α × List DirectionColor) := do
  let raw := List.zipWith (· + ·) powers.bull powers.bear
  let smoothed ← alma raw config.smoothFactor peakOffset config.sigma
  let first := (config.window - 1).toNat
  let direction := List.replicate (min first raw.length) 0.0 ++ smoothed.drop first
  let slopes := List.zipWith slopeColor (direction.drop (first + 1)) (direction.drop first)
  return (direction, List.replicate (min (first + 1) raw.length) .yellow ++ slopes)

/-- Three times the sum of the powers, colored against them. -/
def rawDirection (config : BullBearConfig α) (powers : Powers α) : List α × List DirectionColor :=
  let first := (config.window - 1).toNat
  let drawn := (List.zip powers.bull powers.bear).drop first
  let values := drawn.map fun (bull, bear) => bull * 3.0 + bear * 3.0
  let before := min first powers.bull.length
  (List.replicate before 0.0 ++ values,
   List.replicate before .yellow ++
    List.zipWith (fun value (bull, bear) => powerColor value bull bear) values drawn)

def direction (config : BullBearConfig α) (powers : Powers α) : Except Fault (List α × List DirectionColor) :=
  if config.smooth then config.smoothDirection powers else .ok (config.rawDirection powers)

/-- The powers, drawn from their first whole window on, and the traces of their direction. -/
def result (config : BullBearConfig α) (history : History α) (powers : Powers α) (traces : Traces α) : Result α :=
  let points (values : List α) := (List.zipWith Point.mk history.times values).drop (config.window - 1).toNat
  { name := "ML3 Bull Bear Power"
    lines :=
      [{ label := "Bear", color := "#FF4444", points := points powers.bear, width := 1 },
       { label := "Bull", color := "#44FF44", points := points powers.bull, width := 1 },
       { label := "Dir ▲", color := "#00FF00", points := traces.rising, width := 3 },
       { label := "Dir ▼", color := "#FF0055", points := traces.falling, width := 3 }] }

def run (config : BullBearConfig α) (history : History α) : Except Fault (Outcome α) := do
  let powers ← bullBearPower history.closes config.window
  let (direction, colors) ← config.direction powers
  let traces ← splitDirection history.times direction colors (config.window - 1)
  return { indicator := some (config.result history powers traces) }

end BullBearConfig

end ChartOverlay
