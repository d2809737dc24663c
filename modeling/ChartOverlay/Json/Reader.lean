import ChartOverlay.Json.Basic
import ChartOverlay.Text.Encoding
import ChartOverlay.Text.Number

/-!
# Reading data values

Values are read from text in the usual grammar, with three names for the doubles it has no literals
for. Of two fields of one name the last counts. A text that departs from the grammar is refused with
the position at which it does; one whose lists and records lie too deep in each other is refused at the
first that does.
-/

namespace ChartOverlay.Json

inductive Nest
  | array
  | object
  deriving Repr, DecidableEq

def Nest.name : Nest → String
  | array => "array"
  | object => "object"

/-- What a message calls the type of a value with parts. -/
def Nest.typeName : Nest → String
  | array => "list"
  | object => "dict"

/-- How many lists and records may lie in each other, unless another number is given. -/
def maxDepth : Nat := 980

inductive ReadError
  /-- The text departs from the grammar at a position, counted in code points. -/
  | malformed (position : Nat)
  | tooManyDigits (count : Nat)
  /-- A list or a record lies in too many others. -/
  | tooDeep (nest : Nest)
  deriving Repr, DecidableEq

def tooDeepText (nest : Nest) : String :=
  s!"maximum recursion depth exceeded while decoding a JSON {nest.name} from a unicode string"

/-- While reading, a place is known by the number of code points after it. -/
inductive Trouble
  | at (remaining : Nat)
  | tooManyDigits (count : Nat)
  | tooDeep (nest : Nest)

def isSpacing (c : CodePoint) : Bool := c = ' ' || c = '\t' || c = '\n' || c = '\r'

theorem length_dropWhile_le (p : CodePoint → Bool) (t : Text) : (t.dropWhile p).length ≤ t.length := by
  induction t with
  | nil => simp
  | cons c t ih =>
    rw [List.dropWhile_cons]
    split
    · exact Nat.le_succ_of_le ih
    · exact Nat.le_refl _

/-- What is left of a text after something was read from it. -/
structure Rest (t : Text) where
  text : Text
  shorter : text.length < t.length

namespace Rest

variable {t : Text}

def ofTail {c : CodePoint} (r : Rest t) : Rest (c :: t) := ⟨r.text, Nat.lt_succ_of_lt r.shorter⟩

def tail (c : CodePoint) (t : Text) : Rest (c :: t) := ⟨t, Nat.lt_succ_self _⟩

def trans (r : Rest t) (s : Rest r.text) : Rest t := ⟨s.text, Nat.lt_trans s.shorter r.shorter⟩

/-- The rest without the spacing in front of it. -/
def skip (r : Rest t) : Rest t :=
  ⟨r.text.dropWhile isSpacing, Nat.lt_of_le_of_lt (length_dropWhile_le _ _) r.shorter⟩

/-- The next code point that is no spacing, and what follows it. -/
def next? (r : Rest t) : Option (CodePoint × Rest t) :=
  match r.skip with
  | ⟨[], _⟩ => none
  | ⟨c :: after, h⟩ => some (c, trans ⟨c :: after, h⟩ (.tail c after))

def trouble (r : Rest t) : Trouble := .at r.skip.text.length

end Rest

abbrev Reading (β : Type) (t : Text) := Except Trouble (β × Rest t)

def hexValue? (c : Char) : Option Nat :=
  if c.isDigit then some (c.toNat - 48)
  else if 'a' ≤ c ∧ c ≤ 'f' then some (c.toNat - 87)
  else if 'A' ≤ c ∧ c ≤ 'F' then some (c.toNat - 55)
  else none

def hexNumber? : Text → Option Nat :=
  List.foldlM (fun n c => do return 16 * n + (← c.char?.bind hexValue?)) 0

/-- The letters that stand for a character after a backslash. -/
def escapes : List (CodePoint × CodePoint) :=
  [('\x22', '\x22'), ('\\', '\\'), ('/', '/'), ('b', '\x08'), ('f', '\x0c'), ('n', '\n'), ('r', '\r'),
   ('t', '\t')]

/-- The code points of a text value, newest first, with the first half of a pair that has not been
completed. -/
structure Spelled where
  reversed : Text := []
  half : Option Nat := none

namespace Spelled

def settle (s : Spelled) : Text :=
  match s.half with
  | some first => .ofCode first :: s.reversed
  | none => s.reversed

def push (s : Spelled) (c : CodePoint) : Spelled := { reversed := c :: s.settle }

/-- Adds a UTF-16 unit, which may complete a pair or begin one. -/
def pushUnit (s : Spelled) (unit : Nat) : Spelled :=
  match s.half.bind (pair? · unit) with
  | some c => { reversed := c :: s.reversed }
  | none =>
    if isFirstHalf unit then { reversed := s.settle, half := some unit } else s.push (.ofCode unit)

end Spelled

/-- A text value up to its closing quote; `opening` is the place of the opening one. -/
def spell (opening : Nat) (s : Spelled) : (t : Text) → Reading Text t
  | [] => .error (.at opening)
  | .char '\x22' :: rest => .ok (s.settle.reverse, .tail _ rest)
  | [.char '\\'] => .error (.at opening)
  | .char '\\' :: .char 'u' :: a :: b :: c :: d :: rest =>
    match hexNumber? [a, b, c, d] with
    | some unit =>
      if rest.isEmpty then .error (.at 5)
      else do
        let (x, r) ← spell opening (s.pushUnit unit) rest
        return (x, r.ofTail.ofTail.ofTail.ofTail.ofTail.ofTail)
    | none => .error (.at (rest.length + 5))
  | .char '\\' :: c :: rest =>
    match escapes.lookup c with
    | some e => do
      let (x, r) ← spell opening (s.push e) rest
      return (x, r.ofTail.ofTail)
    | none => .error (.at (rest.length + if c = 'u' then 1 else 2))
  | c :: rest =>
    if c.code < 0x20 then .error (.at (rest.length + 1))
    else do
      let (x, r) ← spell opening (s.push c) rest
      return (x, r.ofTail)

/-- A value that is spelled by a word. -/
def words : List (Text × Json) :=
  [("null", .null), ("true", .bool true), ("false", .bool false), ("NaN", .number Double.notANumber),
   ("Infinity", .number Double.infinity), ("-Infinity", .number (-Double.infinity))]

def word? (t : Text) : Option (Json × Text) :=
  words.findSome? fun (name, value) => (name.isPrefixOf? t).map (value, ·)

/-- The digits of a whole number; only zero begins with a zero. -/
def wholeDigits : Scanner Text
  | .char '0' :: rest => some (['0'], rest)
  | t => Scanner.some1 isAsciiDigit t

def fraction : Scanner Text := do
  discard (Scanner.point (· = '.'))
  Scanner.some1 isAsciiDigit

/-- A number: its sign, its digits and, if it is a double, its decimal. -/
def numeral : Scanner (Bool × Text × Option Decimal) := do
  let negative ← (do discard (Scanner.point (· = '-')); return true) <|> pure false
  let whole ← wholeDigits
  let tail ← (some <$> fraction) <|> pure none
  let power ← (some <$> Decimal.power isAsciiDigit) <|> pure none
  if tail.isNone && power.isNone then return (negative, whole, none)
  let places := tail.getD []
  return (negative, whole, some ⟨digitsValue (whole ++ places), power.getD 0 - places.length⟩)

def numeralValue (negative : Bool) (whole : Text) (decimal : Option Decimal) : Except Trouble Json :=
  match decimal with
  | some d => .ok (.number (if negative then -d.value else d.value))
  | none =>
    if maxDigits < whole.length then .error (.tooManyDigits whole.length)
    else
      let n : Int := digitsValue whole
      .ok (.whole (if negative then -n else n))

mutual

/-- A value at the front of a text, in which so many lists and records may lie in each other. -/
def value (depth : Nat) (t : Text) : Reading Json t :=
  match t with
  | .char '\x22' :: rest => do
    let (x, r) ← spell (rest.length + 1) { } rest
    return (.string x, r.ofTail)
  | .char '[' :: rest => do
    if depth = 0 then throw (.tooDeep .array)
    let start := (Rest.tail '[' rest).skip
    match start.next? with
    | some (.char ']', after) => return (.array [], after)
    | _ =>
      let (items, r) ← elements (depth - 1) [] start.text
      return (.array items, start.trans r)
  | .char '\x7b' :: rest => do
    if depth = 0 then throw (.tooDeep .object)
    let start := (Rest.tail '\x7b' rest).skip
    match start.next? with
    | some (.char '\x7d', after) => return (.object [], after)
    | _ =>
      let (fields, r) ← members (depth - 1) [] start.text
      return (.object fields, start.trans r)
  | t =>
    match word? t with
    | some (value, rest) =>
      if h : rest.length < t.length then .ok (value, ⟨rest, h⟩) else .error (.at t.length)
    | none =>
      match numeral t with
      | some ((negative, digits, decimal), rest) =>
        if h : rest.length < t.length then do return (← numeralValue negative digits decimal, ⟨rest, h⟩)
        else .error (.at t.length)
      | none => .error (.at t.length)
termination_by (t.length, 0)
decreasing_by all_goals exact Prod.Lex.left _ _ start.shorter

/-- The items of a list up to its closing bracket, after those read before, newest first. -/
def elements (depth : Nat) (before : List Json) (t : Text) : Reading (List Json) t := do
  let (item, r) ← value depth t
  match r.next? with
  | some (.char ']', after) => return ((item :: before).reverse, after)
  | some (.char ',', after) =>
    let next := after.skip
    let (items, r) ← elements depth (item :: before) next.text
    return (items, next.trans r)
  | _ => throw r.trouble
termination_by (t.length, 1)
decreasing_by
  · exact Prod.Lex.right _ (by decide)
  · exact Prod.Lex.left _ _ next.shorter

/-- The fields of a record up to its closing bracket, after those read before. -/
def members (depth : Nat) (before : List (Text × Json)) (t : Text) : Reading (List (Text × Json)) t :=
  match t with
  | .char '\x22' :: rest => do
    let (name, r) ← spell (rest.length + 1) { } rest
    let r : Rest ('\x22' :: rest) := r.ofTail
    match r.next? with
    | some (.char ':', after) =>
      let start := after.skip
      let (item, r) ← value depth start.text
      let r := start.trans r
      match r.next? with
      | some (.char '\x7d', after) => return (setField name item before, after)
      | some (.char ',', after) =>
        let next := after.skip
        let (fields, r) ← members depth (setField name item before) next.text
        return (fields, next.trans r)
      | _ => throw r.trouble
    | _ => throw r.trouble
  | other => .error (.at other.length)
termination_by (t.length, 1)
decreasing_by
  · exact Prod.Lex.left _ _ start.shorter
  · exact Prod.Lex.left _ _ next.shorter

end

/-- The value that a whole text holds, with spacing around it. -/
def read (t : Text) (depth : Nat := maxDepth) : Except ReadError Json :=
  let place : Trouble → ReadError
    | .at remaining => .malformed (t.length - remaining)
    | .tooManyDigits count => .tooManyDigits count
    | .tooDeep nest => .tooDeep nest
  match value depth (t.dropWhile isSpacing) with
  | .error trouble => .error (place trouble)
  | .ok (j, r) =>
    match r.next? with
    | none => .ok j
    | some _ => .error (place r.trouble)

inductive BodyError
  | unreadable (error : CodingError)
  | unacceptable (error : ReadError)
  deriving Repr, DecidableEq

def readBody (body : String) (depth : Nat := maxDepth) : Except BodyError Json := do
  let text ← (Encoding.textOfBody? body).mapError .unreadable
  (read text depth).mapError .unacceptable

end ChartOverlay.Json
