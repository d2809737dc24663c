/-!
# Text

A text is a row of code points. Most of them are characters. But UTF-16 writes a character beyond the
first plane as a pair of units, and where text comes in units, one half of a pair may stand alone. No
character is such a half.
-/

namespace ChartOverlay

/-- A character, or the unit `0xd800 + offset`, half of a pair, that stands alone. -/
inductive CodePoint
  | char (c : Char)
  | half (offset : Fin 0x800)
  deriving Repr, DecidableEq

instance : Coe Char CodePoint := ⟨.char⟩

namespace CodePoint

def code : CodePoint → Nat
  | char c => c.toNat
  | half offset => 0xd800 + offset

def ofCode (n : Nat) : CodePoint :=
  if h : 0xd800 ≤ n ∧ n < 0xe000 then half ⟨n - 0xd800, by omega⟩ else char (Char.ofNat n)

def isHalf : CodePoint → Bool
  | char _ => false
  | half _ => true

def char? : CodePoint → Option Char
  | char c => some c
  | half _ => none

def isChar (accepts : Char → Bool) : CodePoint → Bool
  | char c => accepts c
  | half _ => false

/-- A change of characters, which leaves halves alone. -/
def map (f : Char → Char) : CodePoint → CodePoint
  | char c => char (f c)
  | half offset => half offset

/-- What stands for a code point where there can only be characters: for a half three replacement
characters, one for each byte that it would take. -/
def shown : CodePoint → List Char
  | char c => [c]
  | half _ => ['\ufffd', '\ufffd', '\ufffd']

theorem code_ofCode {n : Nat} (h : n < 0x110000) : (ofCode n).code = n := by
  unfold ofCode
  split
  · simp only [code]
    omega
  · have valid : n.isValidChar := by
      simp only [Nat.isValidChar]
      omega
    rw [code, Char.ofNat, dif_pos valid]
    rfl

theorem ofCode_code (c : CodePoint) : ofCode c.code = c := by
  cases c with
  | char c =>
    have valid : c.toNat.isValidChar := c.valid
    simp only [Nat.isValidChar] at valid
    rw [ofCode, code, dif_neg (by omega), Char.ofNat_toNat]
  | half offset =>
    rw [ofCode, code, dif_pos (by omega)]
    simp

end CodePoint

abbrev Text := List CodePoint

namespace Text

def ofChars (cs : List Char) : Text := cs.map .char

def ofString (s : String) : Text := ofChars s.toList

instance : Coe String Text := ⟨ofString⟩

def hasHalf (t : Text) : Bool := t.any (·.isHalf)

/-- A text as it is shown where there can only be characters. -/
def shown (t : Text) : String := String.ofList (t.flatMap (·.shown))

/-- Whether a text stands before another or is equal to it, by the numbers of their code points. -/
def isAtMost : Text → Text → Bool
  | [], _ => true
  | _ :: _, [] => false
  | c :: s, d :: t => c.code < d.code || (c.code = d.code && isAtMost s t)

theorem ofString_append (s t : String) : ofString (s ++ t) = ofString s ++ ofString t := by
  simp only [ofString, ofChars, String.toList_append, List.map_append]

theorem hasHalf_ofString (s : String) : (ofString s).hasHalf = false := by
  simp [hasHalf, ofString, ofChars, CodePoint.isHalf]

theorem shown_ofString (s : String) : (ofString s).shown = s := by
  simp [shown, ofString, ofChars, CodePoint.shown, List.flatMap_map]

end Text

end ChartOverlay
