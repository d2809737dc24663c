import ChartOverlay.Arith.Basic

/-!
# Faults of a calculation

A calculation is partial where it divides or takes a logarithm, leaves the whole numbers or enters them,
looks up a position or combines values that may be undefined. `Fault` names each cause; the checked operations
below are the only sources of them.
-/

namespace ChartOverlay

inductive Operator
  | plus
  | minus
  deriving DecidableEq, Repr

def Operator.symbol : Operator → String
  | .plus => "+"
  | .minus => "-"

/-- Why a calculation has no answer. -/
inductive Fault
  | indexOutOfRange
  | indexTooLarge
  /-- The flags say which operands were there. -/
  | undefinedOperand (op : Operator) (left right : Bool)
  | divisionByZero
  | wholeDivisionByZero
  /-- A logarithm of what is not above zero. -/
  | outsideDomain
  | infiniteToWhole
  | undefinedToWhole
  | wholeTooLarge
  | quotientTooLarge
  | missingParameter (name : String)
  deriving DecidableEq, Repr

namespace Fault

private def operandType (present : Bool) : String := if present then "'float'" else "'NoneType'"

def message : Fault → String
  | indexOutOfRange => "list index out of range"
  | indexTooLarge => "cannot fit 'int' into an index-sized integer"
  | undefinedOperand op left right =>
    s!"unsupported operand type(s) for {op.symbol}: " ++ operandType left ++ " and " ++ operandType right
  | divisionByZero => "float division by zero"
  | wholeDivisionByZero => "division by zero"
  | outsideDomain => "math domain error"
  | infiniteToWhole => "cannot convert float infinity to integer"
  | undefinedToWhole => "cannot convert float NaN to integer"
  | wholeTooLarge => "int too large to convert to float"
  | quotientTooLarge => "integer division result too large for a float"
  | missingParameter name => name

end Fault

namespace Arith

variable {α : Type} [Arith α]

/-- A whole number as a value, if there is a finite one. -/
def ofInt? (n : Int) : Except Fault α :=
  let x : α := ofInt n
  if isFinite x then .ok x else .error .wholeTooLarge

/-- The quotient of two whole numbers, rounded once. -/
def ratio? (p q : Int) : Except Fault α :=
  if q = 0 then .error .wholeDivisionByZero
  else
    let x : α := ofRatio p q
    if isFinite x then .ok x else .error .quotientTooLarge

def div? (x y : α) : Except Fault α :=
  if isZero y then .error .divisionByZero else .ok (x / y)

/-- The logarithm of a value above zero; what is not a number has itself. -/
def log? (x : α) : Except Fault α :=
  if le x 0.0 then .error .outsideDomain else .ok (log x)

private def whole? (round : α → Int) (x : α) : Except Fault Int :=
  if isFinite x then .ok (round x)
  else if isNaN x then .error .undefinedToWhole
  else .error .infiniteToWhole

def floor? (x : α) : Except Fault Int := whole? floor x

def trunc? (x : α) : Except Fault Int := whole? trunc x

/-- The sum of two values that may be undefined. -/
def add? : Option α → Option α → Except Fault α
  | some x, some y => .ok (x + y)
  | x, y => .error (.undefinedOperand .plus x.isSome y.isSome)

/-- The difference of two values that may be undefined. -/
def sub? : Option α → Option α → Except Fault α
  | some x, some y => .ok (x - y)
  | x, y => .error (.undefinedOperand .minus x.isSome y.isSome)

/-- Equality of values that may be undefined: two undefined values are equal. -/
def same : Option α → Option α → Bool
  | some x, some y => eq x y
  | none, none => true
  | _, _ => false

end Arith

/-- The first whole number that a signed word of 64 bits has no room for. -/
def wordBound : Int := 0x8000000000000000

def Fault.ofPosition (i : Int) : Fault :=
  if i < -wordBound ∨ wordBound ≤ i then .indexTooLarge else .indexOutOfRange

/-- The entry at a position; a negative position counts from the end. -/
def entry? {β : Type} (xs : List β) (i : Int) : Except Fault β :=
  let k := if i < 0 then i + xs.length else i
  if k < 0 then .error (.ofPosition i)
  else match xs[k.toNat]? with
    | some x => .ok x
    | none => .error (.ofPosition i)

end ChartOverlay
