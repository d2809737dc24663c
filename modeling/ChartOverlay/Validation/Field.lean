import ChartOverlay.Arith.Double
import ChartOverlay.Arith.Fault
import ChartOverlay.Json.Basic
import ChartOverlay.Text.Number
import ChartOverlay.Validation.Problem

/-!
# Reading fields

A field asks for a kind of value but takes others that can stand for it: a whole number may be given
as a double without a fraction or as a text, and so on.
-/

namespace ChartOverlay

/-- A value, or everything that is wrong with the data for it. -/
inductive Validated (β : Type)
  | valid (x : β)
  | invalid (problems : List Problem)

namespace Validated

variable {β γ : Type}

def map (f : β → γ) : Validated β → Validated γ
  | valid x => valid (f x)
  | invalid problems => invalid problems

/-- Applies a function; the problems of both are kept. -/
def apply : Validated (β → γ) → Validated β → Validated γ
  | valid f, x => x.map f
  | invalid p, valid _ => invalid p
  | invalid p, invalid q => invalid (p ++ q)

instance : Applicative Validated where
  pure := valid
  seq f x := apply f (x ())

def within (place : Place) : Validated β → Validated β
  | valid x => valid x
  | invalid problems => invalid (problems.map (.within place))

/-- A value that departs from what was asked for. -/
def fail (cause : Cause) (found : Json) : Validated β :=
  invalid [{ place := [], cause, quotable := !found.hasInfinities && !found.hasHalves }]

def ofExcept (found : Json) : Except Cause β → Validated β
  | .ok x => valid x
  | .error cause => fail cause found

def toExcept : Validated β → Except (List Problem) β
  | valid x => .ok x
  | invalid problems => .error problems

/-- The items of a list, each checked, counted from `i` on. -/
def items (check : Json → Validated β) (i : Nat) : List Json → Validated (List β)
  | [] => valid []
  | x :: rest => (fun y ys => y :: ys) <$> (check x).within (.item i) <*> items check (i + 1) rest

def list (check : Json → Validated β) : Json → Validated (List β)
  | .array xs => items check 0 xs
  | j => fail .listType j

def required (record : Json) (name : Text) (check : Json → Validated β) : Validated β :=
  match record.field? name with
  | some x => (check x).within (.field name)
  | none => (fail .missing record).within (.field name)

def optional (record : Json) (name : Text) (default : β) (check : Json → Validated β) : Validated β :=
  match record.field? name with
  | some x => (check x).within (.field name)
  | none => valid default

end Validated

namespace Field

/-- A text without underscores, if none stands at an end or next to another. -/
def ungrouped? (t : Text) : Option Text :=
  let parts := t.splitOn (.char '_')
  if parts.any List.isEmpty then none else some parts.flatten

/-! ### Whole numbers in text

A whole number in text may be signed, grouped by underscores, and followed by a point and zeros. It may
begin with zeros, which are passed over together with the underscores between them, up to a digit or a
minus sign. -/

def isPassedOver (c : CodePoint) : Bool := c = '0' || c = '_'

/-- Digits without the zeros in front of them, and what follows; nothing if there are none. -/
def withoutZeros? : Text → Option Text
  | .char '0' :: rest =>
    let zeros : Text := '0' :: rest.takeWhile isPassedOver
    match rest.dropWhile isPassedOver with
    | [] => some (zeros.drop (zeros.length - 1))
    | .char '.' :: after => some (zeros.drop (zeros.length - 1) ++ .char '.' :: after)
    | c :: after => if isAsciiDigit c || c = '-' then some (c :: after) else none
  | c :: rest => if isAsciiDigit c then some (c :: rest) else none
  | [] => none

/-- A text without the point and the zeros at its end, if it ends so. -/
def withoutPlaces (t : Text) : Text :=
  match t.reverse.dropWhile (· = .char '0') with
  | .char '.' :: before => if t.getLast? = some (.char '0') then before.reverse else t
  | _ => t

/-- The whole number that digits spell, with a minus sign or without; they begin with a zero only if that
is all. -/
def spelledWhole? (negative : Bool) (t : Text) : Option Int :=
  let (negative, digits) := match negative, t with
    | false, .char '-' :: rest => (true, rest)
    | _, _ => (negative, t)
  let n : Int := digitsValue digits
  if digits.isEmpty || !digits.all isAsciiDigit || (digits.head? = some (.char '0') && digits.length ≠ 1) ||
      maxDigits < digits.length then none
  else some (if negative then -n else n)

/-- Whether a text begins like a number of too many digits: without a plus sign, zeros in front or
underscores among them. What follows them does not count. -/
def isTooLong (t : Text) : Bool :=
  let digits := (match t with
    | .char '-' :: rest => rest
    | rest => rest).takeWhile isAsciiDigit
  digits.head? ≠ some (.char '0') && maxDigits < digits.length

/-- The whole number that a text stands for. -/
def wholeText? (t : Text) : Except Cause Int :=
  let t := stripBy isSpace t
  let (negative, unsigned) := match t with
    | .char '-' :: rest => (true, rest)
    | .char '+' :: rest => (false, rest)
    | rest => (false, rest)
  if isTooLong t then .error .wholeTooLong
  else
    let spelled := (withoutZeros? unsigned).bind fun digits =>
      let digits := withoutPlaces digits
      spelledWhole? negative ((ungrouped? digits).getD digits)
    match spelled with
    | some n => .ok n
    | none => .error .wholeText

/-! ### Values of a kind -/

/-- A double without a fraction, if it is no larger than a word of 64 bits. -/
def wholeDouble? (x : Float) : Except Cause Int :=
  if !x.isFinite then .error .infinite
  else
    let n := Double.trunc x
    if Double.nearest n 1 != x then .error .fractional
    else if -wordBound < n ∧ n < wordBound then .ok n
    else .error .wholeTooLong

def whole? : Json → Except Cause Int
  | .bool b => .ok (if b then 1 else 0)
  | .whole n => .ok n
  | .number x => wholeDouble? x
  | .string t => wholeText? t
  | _ => .error .wholeType

def numberText? (t : Text) : Option Float :=
  Double.ofSigned? isAsciiDigit (stripBy isSpace t) <|> (ungrouped? t).bind (Double.ofSigned? isAsciiDigit)

def number? : Json → Except Cause Float
  | .bool b => .ok (if b then 1.0 else 0.0)
  | .whole n => (Arith.ofInt? n : Except Fault Float).mapError fun _ => .numberType
  | .number x => .ok x
  | .string t => match numberText? t with
    | some x => .ok x
    | none => .error .numberText
  | _ => .error .numberType

def falseTexts : List Text := ["0", "off", "f", "false", "n", "no"]

def trueTexts : List Text := ["1", "on", "t", "true", "y", "yes"]

def wholeFlag? (n : Int) : Except Cause Bool :=
  if n = 0 then .ok false else if n = 1 then .ok true else .error .flagText

def flag? : Json → Except Cause Bool
  | .bool b => .ok b
  | .whole n => if -wordBound ≤ n ∧ n < wordBound then wholeFlag? n else .error .flagType
  | .number x => match wholeDouble? x with
    | .ok n => wholeFlag? n
    | .error _ => .error .flagType
  | .string t =>
    let lower := t.map (·.map Char.toLower)
    if falseTexts.contains lower then .ok false
    else if trueTexts.contains lower then .ok true
    else .error .flagText
  | _ => .error .flagType

/-- A text that is read as something else has to be a row of characters. -/
def unbroken? : Json → Except Cause Json
  | .string t => if t.hasHalf then .error .brokenText else .ok (.string t)
  | j => .ok j

def whole (j : Json) : Validated Int := .ofExcept j (unbroken? j >>= whole?)

def number (j : Json) : Validated Float := .ofExcept j (unbroken? j >>= number?)

def flag (j : Json) : Validated Bool := .ofExcept j (unbroken? j >>= flag?)

def text : Json → Validated Text
  | .string t => .valid t
  | j => .fail .textType j

def nullable {β : Type} (check : Json → Validated β) : Json → Validated (Option β)
  | .null => .valid none
  | j => some <$> check j

end Field

end ChartOverlay
