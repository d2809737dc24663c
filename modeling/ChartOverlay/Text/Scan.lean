import ChartOverlay.Text.Blank
import ChartOverlay.Text.Digit

/-!
# Scanners

A scanner reads something from the front of a text and leaves the rest. `search` gives what a scanner
reads at the first place where it reads anything.
-/

namespace ChartOverlay

abbrev Scanner := StateT Text Option

namespace Scanner

variable {β : Type}

def point (accepts : CodePoint → Bool) : Scanner CodePoint
  | [] => none
  | c :: rest => if accepts c then some (c, rest) else none

/-- The longest run of code points of a class, possibly empty. -/
def many (accepts : CodePoint → Bool) : Scanner Text := fun t =>
  some (t.takeWhile accepts, t.dropWhile accepts)

/-- The longest run of code points of a class, of at least one. -/
def some1 (accepts : CodePoint → Bool) : Scanner Text := do
  let c ← point accepts
  return c :: (← many accepts)

def blanks : Scanner Unit := discard (many isBlank)

def blanks1 : Scanner Unit := discard (some1 isBlank)

def digits : Scanner Text := some1 isDigit

/-- A text, exactly. -/
def text (word : Text) : Scanner Unit := fun t => (word.isPrefixOf? t).map ((), ·)

/-- Whether a code point stands for a small letter of a word when case does not count: the long s
stands for s, the dotted capital and the dotless small i for i. -/
def standsFor (letter : Char) (c : CodePoint) : Bool :=
  c.map Char.toLower = letter || (letter = 's' && c = 'ſ') || (letter = 'i' && (c = 'İ' || c = 'ı'))

/-- A word of small letters in any case; gives what stands for it. -/
def word (letters : String) : Scanner Text :=
  letters.toList.mapM fun letter => point (standsFor letter)

/-- The end of the text, or a last line break before it. -/
def finish : Scanner Unit
  | [] => some ((), [])
  | [.char '\n'] => some ((), ['\n'])
  | _ => none

def read? (p : Scanner β) (t : Text) : Option β := (p t).map (·.1)

/-- What a scanner reads at the first place of a text where it reads anything. -/
def search (p : Scanner β) : Text → Option β
  | [] => p.read? []
  | c :: rest => p.read? (c :: rest) <|> search p rest

end Scanner

def occursIn (word t : Text) : Bool := (Scanner.search (Scanner.text word) t).isSome

end ChartOverlay
