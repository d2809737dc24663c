import ChartOverlay.Arith.Fault
import ChartOverlay.Candle
import ChartOverlay.Json.Basic
import ChartOverlay.Text.Number
import ChartOverlay.Text.Quoted
import ChartOverlay.Time.Instant

/-!
# Provider payloads

A provider answers with candles in one of two shapes: a list of records with full field names, or a
record whose field `data` is a list of records with full or one-letter names. Candles are put in
order of time, and of two with one time the later one in the payload counts.
-/

namespace ChartOverlay

inductive PayloadError
  | unexpectedFormat
  | notARecord
  | noTime
  | unreadableTime (text : Text)
  | missing (field : String)
  | notNumeric (field : String)
  | volumeText (text : Text)
  | volumeType (type : String)
  /-- A number that has no whole part, or none that is a double. -/
  | fault (fault : Fault)
  deriving Repr, DecidableEq

namespace PayloadError

def message : PayloadError → String
  | unexpectedFormat => "Unexpected data format"
  | notARecord => "Candle is not an object"
  | noTime => "Candle has no usable time"
  | unreadableTime text => "Unparsable candle time " ++ quoted text
  | missing field => "Candle is missing '" ++ field ++ "'"
  | notNumeric field => "Non-numeric '" ++ field ++ "' in candle"
  | volumeText text => "could not convert string to float: " ++ quoted text
  | volumeType type => "float() argument must be a string or a real number, not '" ++ type ++ "'"
  | fault f => f.message

/-- Whether an error says that the payload is no list of candles, so that it can be passed over. -/
def isRecoverable : PayloadError → Bool
  | volumeType _ => false
  | fault f => f = .undefinedToWhole
  | _ => true

end PayloadError

namespace Json

inductive NotADouble
  | text (t : Text)
  | type (name : String)
  | fault (f : Fault)

/-- A value as a double: a number, a truth value or a text that names one. -/
def toDouble? : Json → Except NotADouble Float
  | null => .error (.type "NoneType")
  | bool b => .ok (if b then 1.0 else 0.0)
  | whole n => (Arith.ofInt? n : Except Fault Float).mapError .fault
  | number x => .ok x
  | string t => match Double.ofText? t with
    | some x => .ok x
    | none => .error (.text t)
  | array _ => .error (.type "list")
  | object _ => .error (.type "dict")

end Json

namespace Payload

/-- A field under its full name or, where letters count and it is blank there, under its letter. -/
def lookup? (letters : Bool) (item : Json) (name letter : String) : Option Json :=
  let value := item.field? name
  if letters && (value.getD .null).isBlank then item.field? letter else value

def price? (letters : Bool) (item : Json) (name letter : String) : Except PayloadError Float :=
  match lookup? letters item name letter with
  | none | some .null => .error (.missing name)
  | some value => value.toDouble?.mapError fun
    | .fault f => .fault f
    | _ => .notNumeric name

/-- The volume; a null under the full name is not looked up again. -/
def volume? (letters : Bool) (item : Json) : Except PayloadError (Option Float) :=
  let value := match item.field? "volume" with
    | some v => some v
    | none => if letters then item.field? "v" else none
  match value with
  | none | some .null => .ok none
  | some v => (some <$> v.toDouble?).mapError fun
    | .text t => .volumeText t
    | .type name => .volumeType name
    | .fault f => .fault f

/-- The first of some values that is not blank, else the last. -/
def firstFilled (first : Json) : List Json → Json
  | [] => first
  | next :: rest => if first.isBlank then firstFilled next rest else first

/-- The time of a candle: a number of seconds, or a text under one of three names. -/
def time? (item : Json) : Except PayloadError Int :=
  let raw := (item.field? "time").getD .null
  match raw with
  | .whole n => .ok n
  | .number x => (Arith.trunc? x).mapError .fault
  | _ =>
    match firstFilled raw [(item.field? "date").getD .null, (item.field? "timestamp").getD .null] with
    | .string text =>
      match Instant.seconds? text with
      | some t => .ok t
      | none => .error (.unreadableTime text)
    | _ => .error .noTime

/-- A candle of a record, with one-letter names or without. -/
def candle? (letters : Bool) (item : Json) : Except PayloadError (Candle Float) := do
  if !item.isObject then throw .notARecord
  let time ← time? item
  let opening ← price? letters item "open" "o"
  let high ← price? letters item "high" "h"
  let low ← price? letters item "low" "l"
  let close ← price? letters item "close" "c"
  let volume ← volume? letters item
  return { time, opening, high, low, close, volume }

/-- A candle put in its place by time; it replaces one of the same time. -/
def insert (c : Candle Float) : List (Candle Float) → List (Candle Float)
  | [] => [c]
  | d :: rest =>
    if c.time < d.time then c :: d :: rest
    else if c.time = d.time then c :: rest
    else d :: insert c rest

/-- The records of a payload, and whether one-letter names count. -/
def items? (payload : Json) : Except PayloadError (List Json × Bool) :=
  match payload, payload.field? "data" with
  | .array (first :: rest), _ =>
    if (first.field? "open").isSome then .ok (first :: rest, false) else .error .unexpectedFormat
  | _, some (.array items) => .ok (items, true)
  | _, _ => .error .unexpectedFormat

/-- The candles of a payload in order of time. -/
def candles? (payload : Json) : Except PayloadError (List (Candle Float)) := do
  let (items, letters) ← items? payload
  return (← items.mapM (candle? letters)).foldl (fun sorted c => insert c sorted) []

end Payload

end ChartOverlay
