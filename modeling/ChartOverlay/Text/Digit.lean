import ChartOverlay.Text.Basic

/-!
# Decimal digits

Every script of Unicode writes its ten digits in a row, from zero to nine. A number may be written
with the digits of any script, also mixed.
-/

namespace ChartOverlay

/-- The zeros of the scripts that Unicode 14 has digits of. -/
def zeroDigits : List Nat :=
  [0x30, 0x660, 0x6f0, 0x7c0, 0x966, 0x9e6, 0xa66, 0xae6, 0xb66, 0xbe6, 0xc66, 0xce6, 0xd66, 0xde6,
   0xe50, 0xed0, 0xf20, 0x1040, 0x1090, 0x17e0, 0x1810, 0x1946, 0x19d0, 0x1a80, 0x1a90, 0x1b50, 0x1bb0,
   0x1c40, 0x1c50, 0xa620, 0xa8d0, 0xa900, 0xa9d0, 0xa9f0, 0xaa50, 0xabf0, 0xff10, 0x104a0, 0x10d30,
   0x11066, 0x110f0, 0x11136, 0x111d0, 0x112f0, 0x11450, 0x114d0, 0x11650, 0x116c0, 0x11730, 0x118e0,
   0x11950, 0x11c50, 0x11d50, 0x11da0, 0x16a60, 0x16ac0, 0x16b50, 0x1d7ce, 0x1d7d8, 0x1d7e2, 0x1d7ec,
   0x1d7f6, 0x1e140, 0x1e2f0, 0x1e950, 0x1fbf0]

def digitValue? (c : CodePoint) : Option Nat :=
  (zeroDigits.find? fun first => first ≤ c.code && c.code ≤ first + 9).map (c.code - ·)

def isDigit (c : CodePoint) : Bool := (digitValue? c).isSome

def digitValue (c : CodePoint) : Nat := (digitValue? c).getD 0

def digitsValue (cs : Text) : Nat := cs.foldl (fun n c => 10 * n + digitValue c) 0

def isAsciiDigit (c : CodePoint) : Bool := c.isChar Char.isDigit

/-- The longest row of digits that is read as a whole number. -/
def maxDigits : Nat := 4300

def tooManyDigitsText (count : Nat) : String :=
  s!"Exceeds the limit ({maxDigits} digits) for integer string conversion: value has {count} digits; " ++
    "use sys.set_int_max_str_digits() to increase the limit"

theorem isDigit_of_isAsciiDigit {c : CodePoint} (h : isAsciiDigit c) : isDigit c := by
  cases c with
  | half offset => contradiction
  | char c =>
    simp only [isAsciiDigit, CodePoint.isChar, Char.isDigit, Bool.and_eq_true, decide_eq_true_eq] at h
    have lo : 48 ≤ c.toNat := h.1
    have hi : c.toNat ≤ 57 := h.2
    simp [isDigit, digitValue?, zeroDigits, CodePoint.code, lo, hi]

end ChartOverlay
