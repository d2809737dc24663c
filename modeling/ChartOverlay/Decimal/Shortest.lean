import ChartOverlay.Arith.Double

/-!
# Shortest decimals

A double is written with as few digits as read back as the same double, and of those with the
decimal nearest to it. A decimal reads back if it lies between the midpoints to the neighbouring
doubles; the midpoints themselves belong to a double with an even significand.
-/

namespace ChartOverlay.Decimal

/-- Positive numbers over a common denominator: a value and the ends of the interval around it. -/
structure Interval where
  low : Nat
  value : Nat
  high : Nat
  denominator : Nat
  closed : Bool
  deriving Repr

namespace Interval

/-- The interval of a double `m * 2 ^ e`: half a step to each side, but a quarter below a power of
two, where the steps change. -/
def ofDouble (m : Nat) (e : Int) : Interval :=
  let scale := Nat.pow 2 (e - 2).toNat
  let below := if m = Nat.pow 2 52 ∧ -1074 < e then 1 else 2
  { low := (4 * m - below) * scale
    value := 4 * m * scale
    high := (4 * m + 2) * scale
    denominator := Nat.pow 2 (2 - e).toNat
    closed := m % 2 = 0 }

def inUnits (i : Interval) (k : Int) : Interval :=
  let up := Nat.pow 10 (-k).toNat
  let down := Nat.pow 10 k.toNat
  { i with
    low := i.low * up
    value := i.value * up
    high := i.high * up
    denominator := i.denominator * down }

def has (i : Interval) (n : Nat) : Bool :=
  let x := n * i.denominator
  if i.closed then i.low ≤ x && x ≤ i.high else i.low < x && x < i.high

/-- The whole number in the interval that is nearest to the value, if one of the value's two
neighbours lies in it. -/
def nearest? (i : Interval) : Option Nat :=
  let below := i.value / i.denominator
  let rest := i.value % i.denominator
  let isBelowNearer : Bool := 2 * rest < i.denominator ∨ (2 * rest = i.denominator ∧ below % 2 = 0)
  match i.has below, i.has (below + 1) with
  | true, true => some (if isBelowNearer then below else below + 1)
  | true, false => some below
  | false, true => some (below + 1)
  | false, false => none

/-- Whether the value is at least `10 ^ p`. -/
def reaches (i : Interval) (p : Int) : Bool :=
  Nat.pow 10 p.toNat * i.denominator ≤ i.value * Nat.pow 10 (-p).toNat

/-- The power of ten of the first digit, given a guess that is off by one at most. -/
def magnitude (i : Interval) (guess : Int) : Int :=
  if i.reaches (guess + 1) then guess + 1 else if i.reaches guess then guess else guess - 1

/-- The first grid with a hit, of those with the given numbers of digits: the hit and its unit. -/
def firstHit (i : Interval) (magnitude : Int) : List Nat → Nat × Int
  | [] => (0, 0)
  | n :: more =>
    let k := magnitude + 1 - n
    match (i.inUnits k).nearest? with
    | some d => (d, k)
    | none => firstHit i magnitude more

end Interval

/-- A number without its trailing zeros, at most `fuel` of them, and how many there were. -/
def dropZeros : (fuel : Nat) → Nat → Nat × Nat
  | 0, n => (n, 0)
  | fuel + 1, n =>
    if n % 10 = 0 then
      let (rest, zeros) := dropZeros fuel (n / 10)
      (rest, zeros + 1)
    else (n, 0)

/-- The shortest decimal of a positive double: digits that do not end in zero, and a power of ten. -/
def shortest (m : Nat) (e : Int) : Nat × Int :=
  let i := Interval.ofDouble m e
  let magnitude := i.magnitude (((e + m.log2) * 30103).fdiv 100000)
  let (digits, unit) := i.firstHit magnitude ((List.range 17).map (· + 1))
  let (digits, zeros) := dropZeros 17 digits
  (digits, unit + zeros)

/-- How digits are laid out: exponents of the first digit from `least` up to `greatest` are written
with a point, others as a power of ten. -/
structure Layout where
  least : Int
  greatest : Int

/-- A power of ten has a sign and two digits at least. -/
def powerText (p : Int) : String :=
  let digits := toString p.natAbs
  "e" ++ (if p < 0 then "-" else "+") ++ (if digits.length < 2 then "0" ++ digits else digits)

def zeros (n : Nat) : String := String.ofList (List.replicate n '0')

namespace Layout

/-- `digits * 10 ^ power`, with a point or a power of ten in any case. -/
def text (layout : Layout) (digits : Nat) (power : Int) : String :=
  let ds := toString digits
  let first := power + ds.length - 1
  if first < layout.least ∨ layout.greatest < first then
    let rest := String.ofList (ds.toList.drop 1)
    String.ofList (ds.toList.take 1) ++ (if rest.isEmpty then "" else "." ++ rest) ++ powerText first
  else if first < 0 then "0." ++ zeros (-first - 1).toNat ++ ds
  else if 0 ≤ power then ds ++ zeros power.toNat ++ ".0"
  else
    let point := (first + 1).toNat
    String.ofList (ds.toList.take point) ++ "." ++ String.ofList (ds.toList.drop point)

/-- A finite double; the sign of zero is kept. -/
def doubleText (layout : Layout) (negative : Bool) (m : Nat) (e : Int) : String :=
  let unsigned :=
    if m = 0 then "0.0"
    else
      let (digits, power) := shortest m e
      layout.text digits power
  if negative then "-" ++ unsigned else unsigned

end Layout

end ChartOverlay.Decimal
