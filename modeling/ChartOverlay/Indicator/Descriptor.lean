import ChartOverlay.Text.Basic

/-!
# Indicator descriptors

What a script line asks for: which indicator, with which parameters, under which name and color.
-/

namespace ChartOverlay

inductive IndicatorKind
  | sma
  | ema
  | rsi
  | macd
  | bb
  deriving Repr, DecidableEq

namespace IndicatorKind

def all : List IndicatorKind := [sma, ema, rsi, macd, bb]

def name : IndicatorKind → String
  | sma => "sma"
  | ema => "ema"
  | rsi => "rsi"
  | macd => "macd"
  | bb => "bb"

/-- How scripts and charts write the kind. -/
def keyword : IndicatorKind → String
  | sma => "SMA"
  | ema => "EMA"
  | rsi => "RSI"
  | macd => "MACD"
  | bb => "BB"

def ofName? (name : Text) : Option IndicatorKind := all.find? fun kind => kind.name = name

end IndicatorKind

structure Descriptor (α : Type) where
  name : Text
  kind : IndicatorKind
  params : List (Text × α)
  color : Option Text := none
  deriving Repr, DecidableEq

end ChartOverlay
