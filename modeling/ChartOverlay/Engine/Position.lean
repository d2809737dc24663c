import ChartOverlay.Arith.Fault
import ChartOverlay.Candle
import ChartOverlay.Series

/-!
# Positions and trade signals

A trader holds nothing, a long or a short position. At each bar a view may call for a position; a
change of position is signalled at once, and a position that was kept for the holding period is
left once.
-/

namespace ChartOverlay

open Arith

variable {α : Type} [Arith α]

inductive Position
  | hold
  | long
  | short
  deriving Repr, DecidableEq

/-- The counter is the number of bars since the last change. -/
structure Trader where
  position : Position := .hold
  counter : Int := 0
  deriving Repr, DecidableEq

namespace Trader

/-- The trader after a bar whose view calls for a position, or for none. -/
def next (t : Trader) (view : Option Position) : Trader :=
  let position := view.getD t.position
  { position, counter := if position = t.position then t.counter + 1 else 0 }

def signals (holding : Int) (before after : Trader) : List Signal :=
  let changed : Bool := after.position ≠ before.position
  let held : Bool := after.counter = holding && !changed
  let long : Bool := after.position = .long
  let short : Bool := after.position = .short
  (if changed && long then [.buy] else []) ++
  (if changed && short then [.sell] else []) ++
  (if (long && held) || (changed && short) then [.stopBuy] else []) ++
  (if (short && held) || (changed && long) then [.stopSell] else [])

end Trader

/-- The price at which a signal is drawn: at the low for buying and for ending a short position, at
the high for the others. -/
def Signal.price (candle : Candle α) : Signal → α
  | .buy | .stopSell => candle.low
  | .sell | .stopBuy => candle.high

def Signal.marker (candle : Candle α) (s : Signal) : Marker α :=
  { time := candle.time, signal := s, price := s.price candle }

/-- A close below the curve calls for a short position, one above it for a long one. -/
def priceView (close curve : α) : Option Position :=
  if lt close curve then some .short
  else if gt close curve then some .long
  else none

/-- A curve that comes to lie below another calls for a short position, above it for a long one. -/
def crossView (curve other curveBefore otherBefore : α) : Option Position :=
  if lt curve other && !lt curveBefore otherBefore then some .short
  else if gt curve other && !gt curveBefore otherBefore then some .long
  else none

/-- The view at bar `i` of two curves over the closes. -/
def viewAt (byPrice : Bool) (loss prediction : List α) (i : Int) (close : α) :
    Except Fault (Option Position) := do
  if byPrice then
    return priceView close (← entry? loss i)
  else
    let curve ← entry? loss i
    let other ← entry? prediction i
    return crossView curve other (← entry? loss (i - 1)) (← entry? prediction (i - 1))

/-- The markers of a trader that walks over candles, the first at position `i`. -/
def Trader.walk (view : Int → α → Except Fault (Option Position)) (holding : Int) (t : Trader) (i : Int) :
    List (Candle α) → Except Fault (List (Marker α))
  | [] => .ok []
  | c :: rest => do
    let after := t.next (← view i c.close)
    let later ← after.walk view holding (i + 1) rest
    return (t.signals holding after).map (·.marker c) ++ later

end ChartOverlay
