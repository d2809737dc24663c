import ChartOverlay.Engine.BullBear
import ChartOverlay.Engine.Logistic
import ChartOverlay.Engine.Regression

/-!
# Engines

An engine is known by the type of its parameters. Engines keep no state: what one computes is a
function of its parameters and the history.
-/

namespace ChartOverlay

variable {α : Type} [Arith α]

inductive Engine (α : Type) [Arith α]
  | logistic (config : LogisticConfig α)
  | regression (config : RegressionConfig)
  | bullBear (config : BullBearConfig α)

namespace Engine

def name : Engine α → String
  | logistic _ => "logistic_regression"
  | regression _ => "linear_regression_ema"
  | bullBear _ => "bull_bear_power"

def version (_ : Engine α) : String := "1.0.0"

def minCandles : Engine α → Int
  | logistic config => config.minCandles
  | regression config => config.minCandles
  | bullBear config => config.minCandles

def isValid : Engine α → Bool
  | logistic config => config.isValid
  | regression config => config.isValid
  | bullBear config => config.isValid

def run : Engine α → History α → Except Fault (Outcome α)
  | logistic config => config.run
  | regression config => config.run
  | bullBear config => config.run

/-- Whether an engine has what it takes to draw: parameters in range and enough candles. -/
def Runs (engine : Engine α) (history : History α) : Prop :=
  engine.isValid ∧ engine.minCandles ≤ history.length

instance (engine : Engine α) (history : History α) : Decidable (engine.Runs history) :=
  inferInstanceAs (Decidable (_ ∧ _))

def compute (engine : Engine α) (history : History α) : Except Fault (Outcome α) :=
  if engine.Runs history then engine.run history else .ok { }

end Engine

end ChartOverlay
