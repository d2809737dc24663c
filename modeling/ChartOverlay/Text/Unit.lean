import ChartOverlay.Text.Basic

/-!
# UTF-16 units

A character of the first plane is one unit, every other character a pair of halves. Two halves that make
up a pair always stand for its character.
-/

namespace ChartOverlay

/-- Whether a unit is the half that comes first in a pair. -/
def isFirstHalf (unit : Nat) : Bool := 0xd800 ≤ unit && unit < 0xdc00

/-- Whether a unit is the half that comes second in a pair. -/
def isSecondHalf (unit : Nat) : Bool := 0xdc00 ≤ unit && unit < 0xe000

def pair? (first second : Nat) : Option Char :=
  if isFirstHalf first && isSecondHalf second then
    some (Char.ofNat (0x10000 + (first - 0xd800) * 0x400 + (second - 0xdc00)))
  else none

theorem pair?_of_beyond {c : Char} (beyond : ¬c.toNat < 0x10000) :
    pair? (0xd800 + (c.toNat - 0x10000) / 0x400) (0xdc00 + (c.toNat - 0x10000) % 0x400) = some c := by
  have valid : c.toNat.isValidChar := c.valid
  simp only [Nat.isValidChar] at valid
  have first : isFirstHalf (0xd800 + (c.toNat - 0x10000) / 0x400) := by
    simp only [isFirstHalf, Bool.and_eq_true, decide_eq_true_eq]
    omega
  have second : isSecondHalf (0xdc00 + (c.toNat - 0x10000) % 0x400) := by
    simp only [isSecondHalf, Bool.and_eq_true, decide_eq_true_eq]
    omega
  have number : 0x10000 + (0xd800 + (c.toNat - 0x10000) / 0x400 - 0xd800) * 0x400 +
      (0xdc00 + (c.toNat - 0x10000) % 0x400 - 0xdc00) = c.toNat := by omega
  rw [pair?, first, second, number, Char.ofNat_toNat]
  rfl

namespace CodePoint

def units (c : CodePoint) : List Nat :=
  let n := c.code
  if n < 0x10000 then [n] else [0xd800 + (n - 0x10000) / 0x400, 0xdc00 + (n - 0x10000) % 0x400]

theorem units_of_lt {c : CodePoint} (h : c.code < 0x10000) : c.units = [c.code] := by
  simp only [units, if_pos h]

theorem units_of_not_lt {c : CodePoint} (h : ¬c.code < 0x10000) :
    c.units = [0xd800 + (c.code - 0x10000) / 0x400, 0xdc00 + (c.code - 0x10000) % 0x400] := by
  simp only [units, if_neg h]

end CodePoint

namespace Text

def ofUnits : List Nat → Text
  | first :: second :: rest =>
    match pair? first second with
    | some c => .char c :: ofUnits rest
    | none => .ofCode first :: ofUnits (second :: rest)
  | [unit] => [.ofCode unit]
  | [] => []

theorem ofUnits_pair {first second : Nat} {c : Char} (h : pair? first second = some c) :
    ofUnits [first, second] = [.char c] := by
  rw [ofUnits, h]
  rfl

theorem ofUnits_units : (c : CodePoint) → ofUnits c.units = [c]
  | .half offset => by
    have first : (CodePoint.half offset).code < 0x10000 := by
      simp only [CodePoint.code]
      omega
    rw [CodePoint.units_of_lt first, ofUnits, CodePoint.ofCode_code]
  | .char c => by
    by_cases first : (CodePoint.char c).code < 0x10000
    · rw [CodePoint.units_of_lt first, ofUnits, CodePoint.ofCode_code]
    · rw [CodePoint.units_of_not_lt first]
      exact ofUnits_pair (pair?_of_beyond first)

end Text

end ChartOverlay
