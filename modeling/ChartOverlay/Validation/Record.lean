import ChartOverlay.Engine.Basic
import ChartOverlay.History
import ChartOverlay.Indicator.Descriptor
import ChartOverlay.Validation.Field

/-!
# Reading records

Candles, histories and engine parameters from data values. Fields that a record does not ask for are
passed over.
-/

namespace ChartOverlay

open Validated

/-- A candle; what is no record departs in a way that its reader names. -/
def Candle.read (notARecord : Cause) (j : Json) : Validated (Candle Float) :=
  if j.isObject then
    (fun time opening high low close volume => { time, opening, high, low, close, volume }) <$>
      required j "time" Field.whole <*> required j "open" Field.number <*> required j "high" Field.number <*>
      required j "low" Field.number <*> required j "close" Field.number <*>
      optional j "volume" none (Field.nullable Field.number)
  else fail notARecord j

/-- A history of candles that stand under a field of a record. -/
def History.read (candles : Json) : Except (List Problem) (History Float) := do
  let checked := (list (Candle.read .recordType) candles).within (.field "candles")
  (History.ofCandles? (← checked.toExcept)).mapError fun d => [{ place := [], cause := .disorder d }]

def LogisticConfig.read (j : Json) : Validated (LogisticConfig Float) :=
  let base : LogisticConfig Float := { }
  (fun lookback normalization learningRate iterations holdingPeriod usePrice showCurves =>
    { lookback, normalization, learningRate, iterations, holdingPeriod, usePrice, showCurves }) <$>
    optional j "lookback" base.lookback Field.whole <*>
    optional j "nlbk" base.normalization Field.whole <*>
    optional j "lrate" base.learningRate Field.number <*>
    optional j "iterations" base.iterations Field.whole <*>
    optional j "holding_period" base.holdingPeriod Field.whole <*>
    optional j "use_price_for_signal" base.usePrice Field.flag <*>
    optional j "show_curves" base.showCurves Field.flag

def RegressionConfig.read (j : Json) : Validated RegressionConfig :=
  let base : RegressionConfig := { }
  (fun regressionLength emaLength => { regressionLength, emaLength }) <$>
    optional j "regression_length" base.regressionLength Field.whole <*>
    optional j "ema_length" base.emaLength Field.whole

def BullBearConfig.read (j : Json) : Validated (BullBearConfig Float) :=
  let base : BullBearConfig Float := { }
  (fun window smooth smoothFactor sigma => { window, smooth, smoothFactor, sigma }) <$>
    optional j "window" base.window Field.whole <*>
    optional j "smooth" base.smooth Field.flag <*>
    optional j "smooth_factor" base.smoothFactor Field.whole <*>
    optional j "sigma" base.sigma fun x => Span.value <$> Field.number x

/-- How the parameters of each engine are read, by its name. -/
def Engine.readers : List (Text × (Json → Validated (Engine Float))) :=
  [("logistic_regression", fun j => logistic <$> LogisticConfig.read j),
   ("linear_regression_ema", fun j => regression <$> RegressionConfig.read j),
   ("bull_bear_power", fun j => bullBear <$> BullBearConfig.read j)]

/-- The engine of a name with parameters from a record, if there is one of that name. -/
def Engine.read? (name : Text) (config : Json) : Option (Validated (Engine Float)) :=
  (readers.lookup name).map (· config)

/-- A descriptor with a kind by name and parameters that all have to be numbers. -/
def Descriptor.read (name kind : Text) (params : List (Text × Json)) (color : Option Text) :
    Validated (Descriptor Float) :=
  let kind : Validated IndicatorKind :=
    match IndicatorKind.ofName? kind with
    | some k => .valid k
    | none => (fail .notAChoice (.string kind)).within (.field "kind")
  let param : Text × Json → Validated (Text × Float) := fun (key, value) =>
    (fun x => (key, x)) <$> ((Field.number value).within (.field key)).within (.field "params")
  let params := params.foldr (fun p rest => (fun x xs => x :: xs) <$> param p <*> rest) (.valid [])
  (fun kind params => { name, kind, params, color }) <$> kind <*> params

end ChartOverlay
