import ChartOverlay.Script.Parameter

/-!
# Scripts

A script that bears the mark of an engine belongs to that engine, the first in a fixed order; every
other script is a list of indicator lines.
-/

namespace ChartOverlay

variable {α : Type} [Arith α]

inductive ScriptKind
  | logistic
  | regression
  | bullBear
  | generic
  deriving Repr, DecidableEq

def ScriptKind.name : ScriptKind → String
  | logistic => "logistic_regression"
  | regression => "linear_regression_ema"
  | bullBear => "bull_bear_power"
  | generic => "generic"

inductive Script (α : Type) [Arith α]
  | engine (engine : Engine α)
  | generic (indicators : List (Descriptor α))

namespace Script

/-- Whether a trimmed line says nothing: it is empty or a comment. -/
def isSilent : Text → Bool
  | [] => true
  | .char '/' :: .char '/' :: _ => true
  | _ => false

/-- The lines that say something, without blanks at their ends. -/
def lines (script : Text) : List Text :=
  ((script.splitOn (.char '\n')).map strip).filter (!isSilent ·)

/-- The indicators of a script in line order; lines that ask for none are left out. -/
def indicators? (script : Text) : Except ScriptError (List (Descriptor α)) := do
  return (← (lines script).mapM Descriptor.ofLine?).filterMap id

def isLogistic (script : Text) : Bool :=
  occursIn "logistic_regression" script || occursIn "Machine Learning" script ||
    occursIn "Logistic Regression" script || (Scanner.search (Scanner.word "sigmoid") script).isSome

def isRegression (script : Text) : Bool :=
  occursIn "Linear Regression Line with EMA" script || occursIn "ML2" script ||
    (occursIn "Linear Regression" script && occursIn "ema" script && !occursIn "Bull and Bear" script)

def isBullBear (script : Text) : Bool :=
  occursIn "Bull and Bear Power" script || occursIn "BBP_NM" script || occursIn "ML3" script ||
    occursIn "f_exp_lr" script

def kindOf (script : Text) : ScriptKind :=
  if isLogistic script then .logistic
  else if isRegression script then .regression
  else if isBullBear script then .bullBear
  else .generic

/-- A script with its parameters or indicators. -/
def ofText? (script : Text) : Except ScriptError (Script α) :=
  match kindOf script with
  | .logistic => .ok (.engine (.logistic (.ofScript script)))
  | .regression => .ok (.engine (.regression (.ofScript script)))
  | .bullBear => (fun config => .engine (.bullBear config)) <$> BullBearConfig.ofScript? script
  | .generic => .generic <$> indicators? script

end Script

end ChartOverlay
