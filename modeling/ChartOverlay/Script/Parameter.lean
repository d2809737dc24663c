import ChartOverlay.Engine.Basic
import ChartOverlay.Script.Line

/-!
# Engine parameters in scripts

Scripts for an engine assign its parameters through `input`, either with the value first or with a
default value by name. The first assignment that can be read counts; a value that cannot be had
leaves the parameter at its default.
-/

namespace ChartOverlay

namespace Input

open Scanner

variable {β : Type}

/-- The front of an assignment, up to its opening bracket. -/
def opening (name : Text) : Scanner Unit := do
  text name
  blanks
  discard (point (· = '='))
  blanks
  text "input"
  blanks
  discard (point (· = '('))

/-- An assignment with the value first. -/
def leading (literal : Scanner β) (name : Text) : Scanner β := do
  opening name
  blanks
  literal

/-- What a scanner reads at the last place up to the first stop where it reads anything. -/
def lastBefore (stop : CodePoint → Bool) (p : Scanner β) : Scanner β
  | [] => p []
  | c :: cs => (if stop c then none else lastBefore stop p cs) <|> p (c :: cs)

def default (literal : Scanner β) : Scanner β := do
  text "defval"
  blanks
  discard (point (· = '='))
  blanks
  literal

/-- An assignment with a named default value, the last one before a closing bracket. -/
def named (literal : Scanner β) (name : Text) : Scanner β := do
  opening name
  lastBefore (· = ')') (default literal)

def points : Scanner Text := some1 fun c => isDigit c || c = '.'

def flag : Scanner Bool := (do text "true"; return true) <|> (do text "false"; return false)

end Input

/-- A way to find an assignment: given a literal and a name. -/
structure InputForm where
  find : {β : Type} → Scanner β → Text → Scanner β

namespace InputForm

def leading : InputForm := ⟨Input.leading⟩

def named : InputForm := ⟨Input.named⟩

def whole? (form : InputForm) (script : Text) (name : Text) : Option Nat := do
  let digits ← Scanner.search (form.find Scanner.digits name) script
  (Descriptor.whole? digits).toOption

def decimal? (form : InputForm) (script : Text) (name : Text) : Option Decimal := do
  Decimal.ofText? isDigit (← Scanner.search (form.find Input.points name) script)

def flag? (form : InputForm) (script : Text) (name : Text) : Option Bool :=
  Scanner.search (form.find Input.flag name) script

/-- A whole number of a script, else a default. -/
def wholeOr (form : InputForm) (script : Text) (name : Text) (default : Int) : Int :=
  ((form.whole? script name).map Int.ofNat).getD default

end InputForm

variable {α : Type} [Arith α]

def LogisticConfig.ofScript (script : Text) : LogisticConfig α :=
  let base : LogisticConfig α := { }
  { lookback := InputForm.leading.wholeOr script "lookback" base.lookback
    normalization := InputForm.leading.wholeOr script "nlbk" base.normalization
    learningRate := ((InputForm.leading.decimal? script "lrate").map Decimal.value).getD base.learningRate
    iterations := InputForm.leading.wholeOr script "iterations" base.iterations
    holdingPeriod := InputForm.leading.wholeOr script "holding_p" base.holdingPeriod
    showCurves := (InputForm.leading.flag? script "curves").getD base.showCurves
    usePrice := (InputForm.leading.flag? script "useprice").getD base.usePrice }

def RegressionConfig.ofScript (script : Text) : RegressionConfig :=
  let base : RegressionConfig := { }
  { regressionLength := InputForm.leading.wholeOr script "length" base.regressionLength
    emaLength := InputForm.leading.wholeOr script "emaLength" base.emaLength }

/-- The span of the smoothing curve must have a finite value. -/
def BullBearConfig.ofScript? (script : Text) : Except ScriptError (BullBearConfig α) := do
  let base : BullBearConfig α := { }
  let sigma ← match InputForm.named.whole? script "sigma" with
    | none => pure base.sigma
    | some n =>
      if Arith.isFinite (Arith.ofInt n : α) then pure (.value (Arith.ofInt n))
      else throw (.invalid [{ place := [.field "sigma"], cause := .numberType }])
  return {
    window := InputForm.named.wholeOr script "window" base.window
    smooth := (InputForm.named.flag? script "smooth").getD base.smooth
    smoothFactor := InputForm.named.wholeOr script "smap" base.smoothFactor
    sigma }

end ChartOverlay
