import ChartOverlay.Arith.Double
import ChartOverlay.Text.Scan

/-!
# Numbers in text

A decimal is a row of digits with a point and a power of ten. Texts that stand for a double may be
signed, surrounded by white space, and name infinity or what is not a number.
-/

namespace ChartOverlay

/-- `digits * 10 ^ exponent`. -/
structure Decimal where
  digits : Nat
  exponent : Int
  deriving Repr, DecidableEq

namespace Decimal

def value {α : Type} [OfScientific α] (d : Decimal) : α :=
  OfScientific.ofScientific d.digits (d.exponent < 0) d.exponent.natAbs

/-- The power of ten after a letter e: digits with a sign or without. -/
def power (digit : CodePoint → Bool) : Scanner Int := do
  discard (Scanner.point fun c => c = 'e' || c = 'E')
  (do discard (Scanner.point (· = '-')); return -(digitsValue (← Scanner.some1 digit) : Int)) <|>
  (do discard (Scanner.point (· = '+')); return (digitsValue (← Scanner.some1 digit) : Int)) <|>
  (do return (digitsValue (← Scanner.some1 digit) : Int))

/-- Digits with at most one point, at least one digit, and possibly a power of ten. -/
def scan (digit : CodePoint → Bool) : Scanner Decimal := do
  let whole ← Scanner.many digit
  let fraction ← (do discard (Scanner.point (· = '.')); Scanner.many digit) <|> pure []
  if whole.isEmpty && fraction.isEmpty then failure
  let shift ← power digit <|> pure 0
  return { digits := digitsValue (whole ++ fraction), exponent := shift - fraction.length }

def ofText? (digit : CodePoint → Bool) (t : Text) : Option Decimal :=
  match scan digit t with
  | some (d, []) => some d
  | _ => none

end Decimal

/-- The whole number that a text names: digits of any script, in groups if need be, after a sign or without,
with white space around them. -/
def wholeNumber? (t : Text) : Option Int :=
  let (negative, unsigned) := match stripBy isSpace t with
    | .char '-' :: rest => (true, rest)
    | .char '+' :: rest => (false, rest)
    | rest => (false, rest)
  let groups := unsigned.splitOn (.char '_')
  let n : Int := digitsValue groups.flatten
  if groups.any (·.isEmpty) || !groups.flatten.all isDigit || maxDigits < groups.flatten.length then none
  else some (if negative then -n else n)

namespace Double

def infinity : Float := 1.0 / 0.0

def notANumber : Float := 0.0 / 0.0

/-- A double without a sign: a decimal, or a name in letters of any case. -/
def ofUnsigned? (digit : CodePoint → Bool) (t : Text) : Option Float :=
  let lower := t.map (·.map Char.toLower)
  if lower = "inf" ∨ lower = "infinity" then some infinity
  else if lower = "nan" then some notANumber
  else (Decimal.ofText? digit t).map Decimal.value

def ofSigned? (digit : CodePoint → Bool) : Text → Option Float
  | .char '-' :: t => (ofUnsigned? digit t).map (-·)
  | .char '+' :: t => ofUnsigned? digit t
  | t => ofUnsigned? digit t

/-- A text without its underscores, if each stands between two digits. -/
def ungroup? (digit : CodePoint → Bool) (afterDigit : Bool) : Text → Option Text
  | [] => some []
  | .char '_' :: c :: rest => if afterDigit && digit c then (ungroup? digit true rest).map (c :: ·) else none
  | c :: rest => if c = '_' then none else (ungroup? digit (digit c) rest).map (c :: ·)

/-- The double that a text names: digits of any script, in groups if need be, with white space
around them. -/
def ofText? (t : Text) : Option Float := do
  ofSigned? isDigit (← ungroup? isDigit false (stripBy isSpace t))

end Double

end ChartOverlay
