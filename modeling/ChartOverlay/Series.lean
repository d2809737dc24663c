import ChartOverlay.Text.Basic

/-!
# Series and markers

What the calculations hand to a chart: results made of lines of points, and trade markers.
-/

namespace ChartOverlay

structure Point (α : Type) where
  time : Int
  value : α
  deriving Repr, DecidableEq

/-- The points of the defined values. -/
def pointsOf {α : Type} (times : List Int) (values : List (Option α)) : List (Point α) :=
  (times.zip values).filterMap fun (t, v) => v.map (⟨t, ·⟩)

/-- A line of a chart: its stroke has a width and possibly a dash style. -/
structure Line (α : Type) where
  label : Text
  color : Text
  points : List (Point α)
  width : Int := 1
  style : Option Int := none
  deriving Repr, DecidableEq

inductive Presentation
  | line
  | histogram
  | band
  deriving Repr, DecidableEq

def Presentation.name : Presentation → String
  | line => "line"
  | histogram => "histogram"
  | band => "band"

structure Result (α : Type) where
  name : Text
  kind : Presentation := .line
  lines : List (Line α)
  deriving Repr, DecidableEq

/-- A trade: entering or leaving a long or a short position. -/
inductive Signal
  | buy
  | sell
  | stopBuy
  | stopSell
  deriving Repr, DecidableEq

def Signal.name : Signal → String
  | buy => "buy"
  | sell => "sell"
  | stopBuy => "stopBuy"
  | stopSell => "stopSell"

structure Marker (α : Type) where
  time : Int
  signal : Signal
  price : α
  deriving Repr, DecidableEq

end ChartOverlay
