import ChartOverlay.Text.Digit
import ChartOverlay.Text.Quoted
import ChartOverlay.Validation.Problem

/-!
# What stops a script

Lines that mean nothing are skipped. A line that means something can still ask for what cannot be
had; it then stops its script.
-/

namespace ChartOverlay

inductive ScriptError
  | tooManyDigits (count : Nat)
  /-- A word that stands for a keyword only when case does not count. -/
  | unknownKind (word : Text)
  | invalid (problems : List Problem)
  deriving Repr, DecidableEq

namespace ScriptError

def message : ScriptError → String
  | tooManyDigits count => tooManyDigitsText count
  | unknownKind word => quoted word ++ " is not a valid IndicatorKind"
  | invalid problems => Problem.summary problems

end ScriptError

end ChartOverlay
