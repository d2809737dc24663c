import ChartOverlay.History
import ChartOverlay.Indicator.Descriptor
import ChartOverlay.Indicator.Oscillator
import ChartOverlay.Series

/-!
# Drawing an indicator

`Descriptor.calculate` turns what a script line asks for into the lines of a chart.
-/

namespace ChartOverlay

open Arith

variable {α : Type} [Arith α]

/-- The colors of indicators that name none, in turn. -/
def defaultColors : List Text :=
  ["#2196F3", "#FF9800", "#26A69A", "#EF5350", "#AB47BC", "#FFEB3B", "#00BCD4", "#E040FB"]

/-- The default color for a counter; the counter may be negative. -/
def defaultColor (index : Int) : Text :=
  (defaultColors[(index % 8).toNat]?).getD ""

namespace Descriptor

/-- A parameter without its fraction, if that is positive; one that is not given counts as zero. -/
def period? (d : Descriptor α) (name : String) : Except Fault (Option Int) := do
  let p ← match List.lookup (name : Text) d.params with
    | some x => trunc? x
    | none => .ok 0
  return if 1 ≤ p then some p else none

def parameter? (d : Descriptor α) (name : String) : Except Fault α :=
  match List.lookup (name : Text) d.params with
  | some x => .ok x
  | none => .error (.missingParameter name)

/-- The color a descriptor names, else the default color of the counter. -/
def lineColor (d : Descriptor α) (colorIndex : Int) : Text :=
  match d.color with
  | some c => if c = "" then defaultColor colorIndex else c
  | none => defaultColor colorIndex

/-- A result of one line that carries the descriptor's name. -/
def single (d : Descriptor α) (color : Text) (points : List (Point α)) (width : Int) : Result α :=
  { name := d.name, kind := .line, lines := [{ label := d.name, color, points, width }] }

def macdResult (times : List Int) (line signal : List (Option α)) : Result α :=
  { name := "MACD"
    kind := .histogram
    lines :=
      [{ label := "MACD", color := "#2196F3", points := pointsOf times line, width := 2 },
       { label := "Signal", color := "#FF9800", points := pointsOf times signal, width := 1 }] }

def bandColor : Text := "rgba(255, 152, 0, 0.5)"

def bandResult (d : Descriptor α) (times : List Int) (bands : Bands α) : Result α :=
  { name := d.name
    kind := .band
    lines :=
      [{ label := "Upper", color := bandColor, points := pointsOf times bands.upper, style := some 2 },
       { label := "Middle", color := "#FF9800", points := pointsOf times bands.middle },
       { label := "Lower", color := bandColor, points := pointsOf times bands.lower, style := some 2 }] }

/-- The result of an indicator over a history, or nothing if one of its periods is not positive. -/
def calculate (d : Descriptor α) (history : History α) (colorIndex : Int) :
    Except Fault (Option (Result α)) := do
  let closes := history.closes
  let times := history.times
  let color := d.lineColor colorIndex
  match d.kind with
  | .sma =>
    let some p ← d.period? "period" | return none
    return some (d.single color (pointsOf times (sma closes p)) 2)
  | .ema =>
    let some p ← d.period? "period" | return none
    return some (d.single color (pointsOf times (ema closes p)) 2)
  | .rsi =>
    let some p ← d.period? "period" | return none
    return some (d.single color (pointsOf times (rsi closes p)) 1)
  | .macd =>
    let some fast ← d.period? "fast" | return none
    let some slow ← d.period? "slow" | return none
    let some signal ← d.period? "signal" | return none
    let (line, signalLine) := macd closes fast slow signal
    return some (macdResult times line signalLine)
  | .bb =>
    let some p ← d.period? "period" | return none
    let width ← d.parameter? "stddev"
    return some (d.bandResult times (bollinger closes p width))

end Descriptor

end ChartOverlay
