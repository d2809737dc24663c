import ChartOverlay.Decimal.Shortest
import ChartOverlay.Json.Basic
import ChartOverlay.Text.Quoted
import ChartOverlay.Text.Unit

/-!
# Writing data values

Values are written on one line or one item a line, in ASCII or with all code points as they are. A double
always has a point or a power of ten, so that it is told apart from a whole number.
-/

namespace ChartOverlay.Json

/-- Doubles are written with a point from `0.0001` up to sixteen digits before it. -/
def layout : Decimal.Layout := ⟨-4, 15⟩

def numberText (x : Float) : String :=
  match Double.parts? x with
  | some (negative, m, e) => layout.doubleText negative m e
  | none => if x.isNaN then "NaN" else if x < 0.0 then "-Infinity" else "Infinity"

def unitEscape (unit : Nat) : List Char := '\\' :: 'u' :: hexText 4 unit

/-- How values are laid out and which code points are written as they are: what stands before each item,
before the closing bracket and after the name of a field, at each depth. -/
structure Style where
  item : Nat → Text
  close : Nat → Text
  afterName : Text
  isPlain : CodePoint → Bool

namespace Style

def isPlainAscii (c : CodePoint) : Bool := 0x20 ≤ c.code && c.code < 0x7f

/-- On one line, in ASCII. -/
def compact : Style := ⟨fun _ => "", fun _ => "", "", isPlainAscii⟩

/-- On one line, with the code points as they are except for controls. -/
def direct : Style := { compact with isPlain := fun c => 0x20 ≤ c.code }

/-- One item a line, indented by two blanks for each level, in ASCII. -/
def indented : Style :=
  let line (depth : Nat) : Text := '\n' :: List.replicate (2 * depth) ' '
  ⟨fun depth => line (depth + 1), line, " ", isPlainAscii⟩

end Style

def pointText (style : Style) (c : CodePoint) : Text :=
  if c = doubleQuote ∨ c = '\\' then ['\\', c]
  else if c = '\n' then ['\\', 'n']
  else if c = '\r' then ['\\', 'r']
  else if c = '\t' then ['\\', 't']
  else if c.code = 8 then ['\\', 'b']
  else if c.code = 12 then ['\\', 'f']
  else if style.isPlain c then [c]
  else .ofChars (c.units.flatMap unitEscape)

def stringText (style : Style) (t : Text) : Text :=
  .char doubleQuote :: t.flatMap (pointText style) ++ [.char doubleQuote]

def enclosed (style : Style) (depth : Nat) (opening closing : Text) (items : List Text) : Text :=
  if items.isEmpty then opening ++ closing
  else opening ++ List.intercalate "," (items.map (style.item depth ++ ·)) ++ style.close depth ++ closing

mutual

def render (style : Style) (depth : Nat) : Json → Text
  | null => "null"
  | bool true => "true"
  | bool false => "false"
  | whole n => toString n
  | number x => numberText x
  | string t => stringText style t
  | array items => enclosed style depth "[" "]" (renderItems style (depth + 1) items)
  | object fields => enclosed style depth "\x7b" "\x7d" (renderFields style (depth + 1) fields)

def renderItems (style : Style) (depth : Nat) : List Json → List Text
  | [] => []
  | x :: rest => render style depth x :: renderItems style depth rest

def renderFields (style : Style) (depth : Nat) : List (Text × Json) → List Text
  | [] => []
  | (name, x) :: rest =>
    (stringText style name ++ ":" ++ style.afterName ++ render style depth x) :: renderFields style depth rest

end

def text (j : Json) : String := Text.shown (render .compact 0 j)

/-- A value on one line, with the code points as they are. -/
def directText (j : Json) : Text := render .direct 0 j

def pretty (j : Json) : String := Text.shown (render .indented 0 j)

end ChartOverlay.Json
