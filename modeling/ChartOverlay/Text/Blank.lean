import ChartOverlay.Text.Range

/-!
# Blank characters

Scripts and lists are separated by blanks: the characters that Unicode lists as white space, and the
four information separators of the control characters. The separators count as blank in scripts but
not around a number that stands alone.
-/

namespace ChartOverlay

/-- The White_Space property of Unicode. -/
def spaceRanges : CharRanges :=
  [(0x9, 0xd), (0x20, 0x20), (0x85, 0x85), (0xa0, 0xa0), (0x1680, 0x1680), (0x2000, 0x200a),
   (0x2028, 0x2029), (0x202f, 0x202f), (0x205f, 0x205f), (0x3000, 0x3000)]

def isSpace (c : CodePoint) : Bool := spaceRanges.has c

/-- White space and the information separators. -/
def isBlank (c : CodePoint) : Bool := (0x1c ≤ c.code && c.code ≤ 0x1f) || isSpace c

/-- A text without the characters of a class at its ends. -/
def stripBy (blank : CodePoint → Bool) (cs : Text) : Text :=
  ((cs.dropWhile blank).reverse.dropWhile blank).reverse

def strip (cs : Text) : Text := stripBy isBlank cs

theorem isBlank_of_isWhitespace {c : Char} (h : c.isWhitespace) : isBlank c := by
  simp only [Char.isWhitespace, Bool.or_eq_true, decide_eq_true_eq] at h
  rcases h with ((rfl | rfl) | rfl) | rfl <;> decide

end ChartOverlay
