import ChartOverlay.Arith.Fault
import ChartOverlay.Indicator.Descriptor
import ChartOverlay.Script.Color
import ChartOverlay.Script.Error
import ChartOverlay.Text.Number

/-!
# Script lines

A line asks for an indicator by a call, such as `sma(close, 20)` anywhere in the line, or in short,
as in `SMA 20`. Calls come before short forms, and kinds in a fixed order.
-/

namespace ChartOverlay

namespace Call

open Scanner

def mark (c : Char) : Scanner Unit := do
  blanks
  discard (point (· = c))
  blanks

/-- The name of a function and its first argument, the closes. -/
def closeArgument (name : String) : Scanner Unit := do
  discard (word name)
  mark '('
  discard (word "close")

def argument (number : Scanner Text) : Scanner Text := do
  mark ','
  number

def closing : Scanner Unit := do
  blanks
  discard (point (· = ')'))

def one (name : String) : Scanner Text := do
  closeArgument name
  let period ← argument digits
  closing
  return period

/-- Digits, possibly with a point and more digits. -/
def plainDecimal : Scanner Text := do
  let whole ← digits
  (do
    let mark ← point (· = '.')
    return whole ++ mark :: (← many isDigit)) <|> pure whole

def macd : Scanner (Text × Text × Text) := do
  closeArgument "macd"
  let fast ← argument digits
  let slow ← argument digits
  let signal ← argument digits
  closing
  return (fast, slow, signal)

def bands : Scanner (Text × Text) := do
  closeArgument "bb"
  let period ← argument digits
  let width ← argument plainDecimal
  closing
  return (period, width)

end Call

namespace Short

open Scanner

def one : Scanner (Text × Text) := do
  let name ← word "sma" <|> word "ema" <|> word "rsi"
  blanks1
  let period ← digits
  finish
  return (name, period)

def macd : Scanner (Text × Text × Text) := do
  discard (word "macd")
  blanks1
  let fast ← digits
  blanks1
  let slow ← digits
  blanks1
  let signal ← digits
  finish
  return (fast, slow, signal)

def bands : Scanner (Text × Text) := do
  discard (word "bb")
  blanks1
  let period ← digits
  blanks1
  let width ← Call.plainDecimal
  finish
  return (period, width)

end Short

namespace Descriptor

variable {α : Type} [Arith α]

def whole? (digits : Text) : Except ScriptError Nat :=
  if maxDigits < digits.length then .error (.tooManyDigits digits.length) else .ok (digitsValue digits)

/-- Parameters as values; those without a finite value are reported together. -/
def params? (given : List (Text × Nat)) : Except ScriptError (List (Text × α)) :=
  let problems := given.filterMap fun (name, n) =>
    if Arith.isFinite (Arith.ofInt n : α) then none
    else some { place := [.field "params", .field name], cause := .numberType }
  if problems.isEmpty then .ok (given.map fun (name, n) => (name, Arith.ofInt n))
  else .error (.invalid problems)

/-- An indicator of one period, named after its keyword. -/
def ofPeriod? (kind : IndicatorKind) (digits : Text) (color : Option Text) :
    Except ScriptError (Descriptor α) := do
  let period ← whole? digits
  return {
    name := kind.keyword ++ " " ++ toString period, kind, color
    params := ← params? [("period", period)] }

def ofMacd? (fast slow signal : Text) (color : Option Text) : Except ScriptError (Descriptor α) := do
  let fast ← whole? fast
  let slow ← whole? slow
  let signal ← whole? signal
  return {
    name := "MACD", kind := .macd, color
    params := ← params? [("fast", fast), ("slow", slow), ("signal", signal)] }

/-- The name keeps the numbers as they are written. -/
def ofBands? (period width : Text) (color : Option Text) : Except ScriptError (Descriptor α) := do
  let bars ← whole? period
  let factor : α := ((Decimal.ofText? isDigit width).map Decimal.value).getD 0.0
  return {
    name := "BB " ++ period ++ "," ++ width, kind := .bb, color
    params := (← params? [("period", bars)]) ++ [(("stddev" : Text), factor)] }

/-- A word in small letters; a dotted capital I becomes an i with a dot above. -/
def lowered (word : Text) : Text :=
  word.flatMap fun (c : CodePoint) => if c = 'İ' then ['i', '\u0307'] else [c.map Char.toLower]

/-- A short form with one number; its keyword must be spelled with the letters of the keyword. -/
def ofShort? (word digits : Text) : Except ScriptError (Descriptor α) := do
  let period ← whole? digits
  match IndicatorKind.ofName? (lowered word) with
  | some kind =>
    return { name := kind.keyword ++ " " ++ toString period, kind, params := ← params? [("period", period)] }
  | none => throw (.unknownKind (lowered word))

/-- The indicator that a line asks for, or nothing if it asks for none. -/
def ofLine? (line : Text) : Except ScriptError (Option (Descriptor α)) :=
  if let some digits := Scanner.search (Call.one "sma") line then
    some <$> ofPeriod? .sma digits (lineColor? line)
  else if let some digits := Scanner.search (Call.one "ema") line then
    some <$> ofPeriod? .ema digits (lineColor? line)
  else if let some digits := Scanner.search (Call.one "rsi") line then
    some <$> ofPeriod? .rsi digits (some "#AB47BC")
  else if let some (fast, slow, signal) := Scanner.search Call.macd line then
    some <$> ofMacd? fast slow signal (some "#2196F3")
  else if let some (period, width) := Scanner.search Call.bands line then
    some <$> ofBands? period width (some "#FF9800")
  else if let some (word, digits) := Short.one.read? line then
    some <$> ofShort? word digits
  else if let some (fast, slow, signal) := Short.macd.read? line then
    some <$> ofMacd? fast slow signal none
  else if let some (period, width) := Short.bands.read? line then
    some <$> ofBands? period width none
  else
    .ok none

end Descriptor

end ChartOverlay
