import ChartOverlay.Arith.Basic

/-!
# Doubles

The arithmetic that runs: IEEE doubles. A finite double is a whole multiple of a power of two, and
the conversions from and to whole numbers are computed on that form, exactly.
-/

namespace ChartOverlay.Double

open Float.Model (UnpackedFloat)
open Float.Model.UnpackedFloat (Sign)

/-- The double nearest to `p / q`, of two equally near ones that with the even significand. A zero
divisor gives what the division of doubles gives. -/
def nearest (p q : Int) : Float :=
  if q = 1 then Float.ofInt p
  else if p = 0 ∨ q = 0 then Float.ofInt p / Float.ofInt q
  else if hp : 0 < p.natAbs then
    if hq : 0 < q.natAbs then
      let sign : Sign := if (p < 0) = (q < 0) then .positive else .negative
      .ofModel (.pack (.div .binary64 (.finite sign p.natAbs 0 hp) (.finite .positive q.natAbs 0 hq)))
    else 0.0
  else 0.0

/-- The sign (whether negative), significand and binary exponent of a finite double. -/
def parts? (x : Float) : Option (Bool × Nat × Int) :=
  match x.toModel.unpack with
  | .finite .positive m e _ => some (false, m, e)
  | .finite .negative m e _ => some (true, m, e)
  | .zero .positive => some (false, 0, 0)
  | .zero .negative => some (true, 0, 0)
  | _ => none

/-- `m * 2 ^ e` as a quotient of two whole numbers, the second positive. -/
def quotient (negative : Bool) (m : Nat) (e : Int) : Int × Nat :=
  let p : Int := m * Nat.pow 2 e.toNat
  (if negative then -p else p, Nat.pow 2 (-e).toNat)

/-- A finite double as a quotient of two whole numbers; zero for the others. -/
def toQuotient (x : Float) : Int × Nat :=
  match parts? x with
  | some (negative, m, e) => quotient negative m e
  | none => (0, 1)

def floor (x : Float) : Int :=
  let (p, q) := toQuotient x
  p.fdiv q

def trunc (x : Float) : Int :=
  let (p, q) := toQuotient x
  p.tdiv q

instance : Arith Float where
  sqrt := Float.sqrt
  exp := Float.exp
  log := Float.log
  ofRatio := nearest
  floor := floor
  trunc := trunc
  lt := Float.lt
  eq := Float.beq
  isNaN := Float.isNaN
  isFinite := Float.isFinite

end ChartOverlay.Double
