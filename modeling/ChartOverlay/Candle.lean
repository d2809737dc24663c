/-!
# Candles

A candle is one bar of a chart: the prices at which trading opened and closed and its extremes, at a
time in seconds of the Unix epoch.
-/

namespace ChartOverlay

structure Candle (α : Type) where
  time : Int
  opening : α
  high : α
  low : α
  close : α
  volume : Option α := none
  deriving Repr, DecidableEq

end ChartOverlay
