import ChartOverlay.Script.Classification

/-!
# Templates and previews

Scripts that come with the library, and short labels for scripts.
-/

namespace ChartOverlay

structure Template where
  name : Text
  script : Text
  deriving Repr, DecidableEq

namespace Template

def logistic : Template where
  name := "ML Logistic Regression"
  script := List.intercalate "\n"
    ["// Machine Learning: Logistic Regression (v.3)",
     "// Paste your full PineScript here, parameters will be auto-detected",
     "",
     "lookback   = input(2, 'Lookback Window Size')",
     "nlbk       = input(2, 'Normalization Lookback')",
     "lrate      = input(0.0009, 'Learning Rate')",
     "iterations = input(1000, 'Training Iterations')",
     "holding_p  = input(1, 'Holding Period')",
     "curves     = input(false, 'Show Loss & Prediction Curves?')",
     "useprice   = input(true, 'Use Price Data for Signal Generation?')",
     "",
     "logistic_regression(base, synth, lookback, lrate, iterations)"]

def regression : Template where
  name := "ML2 Linear Regression + EMA"
  script := List.intercalate "\n"
    ["// Linear Regression Line with EMA",
     "",
     "length    = input(14, 'Regression Length')",
     "emaLength = input(20, 'EMA Length')"]

def bullBear : Template where
  name := "ML3 Bull Bear Power"
  script := List.intercalate "\n"
    ["// Improved Linear Regression Bull and Bear Power v02",
     "",
     "window = input(title='Window', defval=10)",
     "smooth = input(title='Smooth?', defval=true)",
     "smap   = input(title='Smooth Factor', defval=5)",
     "sigma  = input(title='Sigma', defval=6)"]

def all : List Template :=
  [⟨"SMA 20", "ta.sma(close, 20)"⟩,
   ⟨"SMA 50", "ta.sma(close, 50)"⟩,
   ⟨"SMA 200", "ta.sma(close, 200)"⟩,
   ⟨"EMA 12", "ta.ema(close, 12)"⟩,
   ⟨"EMA 26", "ta.ema(close, 26)"⟩,
   ⟨"RSI 14", "ta.rsi(close, 14)"⟩,
   ⟨"MACD", "ta.macd(close, 12, 26, 9)"⟩,
   ⟨"Bollinger Bands", "ta.bb(close, 20, 2)"⟩,
   logistic, regression, bullBear]

def find? (name : Text) : Option Template := all.find? (·.name = name)

end Template

namespace Script

def previewLength : Nat := 40

def engineLabel : ScriptKind → Option Text
  | .logistic => some "ML: Logistic Regression"
  | .regression => some "ML: Linear Regression + EMA"
  | .bullBear => some "ML: Bull Bear Power"
  | .generic => none

/-- The lines that say something, as they are written. -/
def rawLines (script : Text) : List Text :=
  (script.splitOn (.char '\n')).filter fun line => !isSilent (strip line)

/-- A label for a script: that of its engine, or the start of its lines. A script that does not parse
has none. -/
def preview? (script : Text) : Except ScriptError Text := do
  discard (ofText? script : Except ScriptError (Script Float))
  return match engineLabel (kindOf script) with
    | some label => label
    | none => (List.intercalate ", " (rawLines script)).take previewLength

end Script

end ChartOverlay
