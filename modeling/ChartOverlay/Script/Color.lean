import ChartOverlay.Text.Scan
import ChartOverlay.Text.Word

/-!
# Colors in scripts

A script line may name a color, as a hexadecimal triple or by a name.
-/

namespace ChartOverlay

def namedColors : List (Text × Text) :=
  [("color.red", "#EF5350"), ("color.green", "#26A69A"), ("color.blue", "#2196F3"),
   ("color.yellow", "#FFEB3B"), ("color.orange", "#FF9800"), ("color.purple", "#AB47BC"),
   ("color.white", "#FFFFFF"), ("color.aqua", "#00BCD4"), ("color.lime", "#CDDC39"),
   ("color.fuchsia", "#E040FB")]

/-- The color that a token stands for: a hexadecimal one itself, a name what it names. -/
def resolveColor : Text → Option Text
  | .char '#' :: digits => some (.char '#' :: digits)
  | name => namedColors.lookup name

def isHexDigit (c : CodePoint) : Bool :=
  c.isChar fun c => c.isDigit || ('a' ≤ c && c ≤ 'f') || ('A' ≤ c && c ≤ 'F')

def hexColor : Scanner Text := do
  let sign ← Scanner.point (· = '#')
  return sign :: (← (List.replicate 6 isHexDigit).mapM Scanner.point)

def colorName : Scanner Text := do
  Scanner.text "color."
  return "color." ++ (← Scanner.some1 isWord)

def colorToken : Scanner Text := do
  Scanner.text "color"
  Scanner.blanks
  discard (Scanner.point fun c => c = '=' || c = ':')
  Scanner.blanks
  hexColor <|> colorName

/-- The color that a line assigns first, if it is known. -/
def lineColor? (line : Text) : Option Text := do
  resolveColor (← Scanner.search colorToken line)

end ChartOverlay
