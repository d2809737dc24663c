import ChartOverlay.Arith.Basic
import ChartOverlay.Candle
import ChartOverlay.Text.Basic

/-!
# Placeholder candles

Where a provider fails, a chart shows a random walk of daily candles instead, marked as such. The
walk starts at a base price of the symbol.
-/

namespace ChartOverlay

open Arith

variable {α : Type} [Arith α]

def daySeconds : Int := 86400

def basePrices : List (Text × Int) :=
  [("BBCA", 9800), ("BBRI", 4600), ("TLKM", 3400), ("ASII", 5200), ("BMRI", 6300), ("UNVR", 3150),
   ("GOTO", 72), ("BREN", 6900), ("ADRO", 2700), ("ANTM", 1530), ("PGAS", 1350), ("INDF", 6700)]

/-- A symbol without the exchange in front of it: what follows the last colon. -/
def ticker (symbol : Text) : Text := (symbol.reverse.takeWhile (· ≠ .char ':')).reverse

def basePrice (symbol : Text) : α := ofInt ((basePrices.lookup (ticker symbol)).getD 5000)

/-- The draws of a random source, each from zero up to one; they are numbered in the order in which
they are made. -/
abbrev Draws (α : Type) := Nat → α

/-- The next candle of a walk that stands at a price, from four draws. -/
def walkCandle (time : Int) (price a b c d : α) : Candle α :=
  let volatility := price * 0.025
  let opening := price + (a - 0.5) * volatility
  let close := opening + (b - 0.5) * volatility
  { time, opening, close
    high := greatest opening close + c * volatility * 0.5
    low := least opening close - d * volatility * 0.5 }

/-- The candles of a walk with `left` days to its end, the draws counted from `k` on. -/
def walk (draws : Draws α) (now : Int) : (left : Nat) → (k : Nat) → α → List (Candle α)
  | 0, _, _ => []
  | left + 1, k, price =>
    let time := now - left * daySeconds
    let c := walkCandle time price (draws k) (draws (k + 1)) (draws (k + 2)) (draws (k + 3))
    c :: walk draws now left (k + 4) c.close

/-- The number of candles for a number of days before the last. -/
def placeholderCount (count : Int) : Nat := (count + 1).toNat

/-- The draws that so many days take. -/
def placeholderDraws (count : Int) : Nat := 4 * placeholderCount count

/-- One candle a day up to `now`, and `count` before it. -/
def placeholderCandles (symbol : Text) (count now : Int) (draws : Draws α) : List (Candle α) :=
  walk draws now (placeholderCount count) 0 (basePrice symbol)

end ChartOverlay
