import ChartOverlay.Indicator.Calculator
import ChartOverlay.Proofs.Causal

/-!
# Sketches

What an indicator draws is settled but for the candles: a sketch names each line of the result and the causal
series that it follows. `calculate_eq_sketch` splits a calculation into its sketch, which no candle can
change, and the drawing of it.
-/

namespace ChartOverlay
variable {α : Type}

/-- A line without its points, and the series of the closes that they follow. -/
structure Curve (α : Type) where
  label : Text
  color : Text
  width : Int := 1
  style : Option Int := none
  series : List α → List (Option α)
  causal : Causal series

def Curve.line (history : History α) (c : Curve α) : Line α where
  label := c.label
  color := c.color
  points := pointsOf history.times (c.series history.closes)
  width := c.width
  style := c.style

structure Sketch (α : Type) where
  name : Text
  kind : Presentation := .line
  curves : List (Curve α)

namespace Sketch

/-- The result that a sketch stands for over a history. -/
def result (history : History α) (s : Sketch α) : Result α where
  name := s.name
  kind := s.kind
  lines := s.curves.map (·.line history)

variable [Arith α]

/-- A sketch of one line that carries the descriptor's name. -/
def single (d : Descriptor α) (colorIndex : Int) {series : List α → List (Option α)} (causal : Causal series)
    (width : Int) : Sketch α where
  name := d.name
  curves := [{ label := d.name, color := d.lineColor colorIndex, width, series, causal }]

def convergence (fast slow signal : Int) : Sketch α where
  name := "MACD"
  kind := .histogram
  curves :=
    [{ label := "MACD", color := "#2196F3", width := 2, series := fun xs => (macd xs fast slow signal).1
       causal := (macd_causal fast slow signal).1 },
     { label := "Signal", color := "#FF9800", series := fun xs => (macd xs fast slow signal).2
       causal := (macd_causal fast slow signal).2 }]

def bands (d : Descriptor α) (period : Int) (width : α) : Sketch α where
  name := d.name
  kind := .band
  curves :=
    [{ label := "Upper", color := Descriptor.bandColor, style := some 2
       series := fun xs => (bollinger xs period width).upper, causal := (bollinger_causal period width).1 },
     { label := "Middle", color := "#FF9800"
       series := fun xs => (bollinger xs period width).middle, causal := (bollinger_causal period width).2.1 },
     { label := "Lower", color := Descriptor.bandColor, style := some 2
       series := fun xs => (bollinger xs period width).lower, causal := (bollinger_causal period width).2.2 }]

end Sketch

namespace Descriptor
variable [Arith α]

/-- What an indicator draws, or nothing if one of its periods is not positive. -/
def sketch? (d : Descriptor α) (colorIndex : Int) : Except Fault (Option (Sketch α)) :=
  match d.kind with
  | .sma => do
    let some p ← d.period? "period" | return none
    return some (.single d colorIndex (sma_causal p) 2)
  | .ema => do
    let some p ← d.period? "period" | return none
    return some (.single d colorIndex (ema_causal p) 2)
  | .rsi => do
    let some p ← d.period? "period" | return none
    return some (.single d colorIndex (rsi_causal p) 1)
  | .macd => do
    let some fast ← d.period? "fast" | return none
    let some slow ← d.period? "slow" | return none
    let some signal ← d.period? "signal" | return none
    return some (.convergence fast slow signal)
  | .bb => do
    let some p ← d.period? "period" | return none
    let width ← d.parameter? "stddev"
    return some (.bands d p width)

/-- The candles enter a calculation through the series of its sketch only. -/
theorem calculate_eq_sketch (d : Descriptor α) (history : History α) (colorIndex : Int) :
    d.calculate history colorIndex = Option.map (·.result history) <$> d.sketch? colorIndex := by
  unfold calculate sketch?
  dsimp only
  cases d.kind with
  | sma | ema | rsi => rcases d.period? "period" with _ | _ | p <;> rfl
  | macd =>
    rcases d.period? "fast" with _ | _ | fast
    · rfl
    · rfl
    rcases d.period? "slow" with _ | _ | slow
    · rfl
    · rfl
    rcases d.period? "signal" with _ | _ | signal <;> rfl
  | bb =>
    rcases d.period? "period" with _ | _ | p
    · rfl
    · rfl
    cases d.parameter? "stddev" <;> rfl

end Descriptor

end ChartOverlay
