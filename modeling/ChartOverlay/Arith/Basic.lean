/-!
# Arithmetic

Prices, indicator values and model weights are numbers of some arithmetic `α`. Every calculation of
the library is written once over `Arith α`: with `α := Float` it runs, and any other instance reads
the same formulas with other numbers. No law is assumed here.
-/

namespace ChartOverlay

/-- The operations that the calculations use. Comparisons are those of IEEE doubles: a value that is
not a number is neither below nor equal to anything. -/
class Arith (α : Type) extends Add α, Sub α, Mul α, Div α, Neg α, OfScientific α where
  sqrt : α → α
  exp : α → α
  log : α → α
  /-- The value nearest to the quotient of two whole numbers, the second not zero. -/
  ofRatio : Int → Int → α
  floor : α → Int
  trunc : α → Int
  lt : α → α → Bool
  eq : α → α → Bool
  isNaN : α → Bool
  isFinite : α → Bool

namespace Arith

variable {α : Type} [Arith α]

/-- The value nearest to a whole number, infinite if that is too large. -/
def ofInt (n : Int) : α := ofRatio n 1

def gt (x y : α) : Bool := lt y x

def le (x y : α) : Bool := lt x y || eq x y

def isZero (x : α) : Bool := eq x 0.0

/-- A value, unless it is not a number. -/
def defined (x : α) : Option α := if isNaN x then none else some x

/-- The second value if it is below the first, else the first. -/
def least (x y : α) : α := if lt y x then y else x

/-- The second value if it is above the first, else the first. -/
def greatest (x y : α) : α := if lt x y then y else x

end Arith

end ChartOverlay
