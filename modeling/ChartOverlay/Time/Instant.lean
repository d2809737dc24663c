import ChartOverlay.Arith.Double
import ChartOverlay.Text.Basic
import ChartOverlay.Time.Calendar

/-!
# Instants in text

A text names an instant by a date, and possibly a time of day after any one character and an offset
from universal time. Dates and times are written with separators or without. The text is read by
bytes; past its end stand zero bytes.
-/

namespace ChartOverlay.Instant

abbrev Bytes := List Nat

def dateEnds : List Nat := [7, 8, 10]

/-- The bytes of a text. Of the halves that stand alone, the first at a place where a date may end counts
as a letter; a text with another has no bytes. -/
def bytes? (t : Text) : Option Bytes :=
  let t : Text := match dateEnds.find? fun i => (t[i]?).any (·.isHalf) with
    | some i => t.set i 'T'
    | none => t
  if t.hasHalf then none else some (t.shown.toUTF8.toList.map UInt8.toNat)

def byte (c : Char) : Nat := c.toNat

def peek (bs : Bytes) : Nat := bs.headD 0

def isDigitByte (b : Nat) : Bool := 48 ≤ b && b ≤ 57

/-- A number of exactly `n` digits at the front. -/
def digits? (n : Nat) (bs : Bytes) : Option (Nat × Bytes) :=
  let ds := bs.take n
  if ds.length = n ∧ ds.all isDigitByte then some (ds.foldl (fun v d => 10 * v + (d - 48)) 0, bs.drop n)
  else none

/-- How many bytes the date takes. Without separators a week date ends after the week or the weekday,
as the digits of a time come in pairs. -/
def dateLength? (bs : Bytes) : Option Nat :=
  let nth (i : Nat) : Nat := bs.getD i 0
  let n := bs.length
  if n < 7 then none
  else if n = 7 then some 7
  else if nth 4 = byte '-' then
    if nth 5 = byte 'W' then
      if 8 < n ∧ nth 8 = byte '-' then
        if n = 9 then none
        else if 10 < n ∧ isDigitByte (nth 10) then some 8
        else some 10
      else some 8
    else some 10
  else if nth 4 = byte 'W' then
    let digitsEnd := 7 + ((bs.drop 7).takeWhile isDigitByte).length
    if digitsEnd < 9 then some digitsEnd
    else if digitsEnd % 2 = 0 then some 7
    else some 8
  else some 8

/-- A separator of a date, if dates are written with separators. -/
def separator? (separated : Bool) (bs : Bytes) : Option Bytes :=
  if !separated then some bs
  else if peek bs = byte '-' then some (bs.drop 1)
  else none

def date? (length : Nat) (bs : Bytes) : Option Nat := do
  let (year, rest) ← digits? 4 bs
  let separated := peek rest = byte '-'
  let rest := if separated then rest.drop 1 else rest
  if peek rest = byte 'W' then
    let (week, rest) ← digits? 2 (rest.drop 1)
    if bs.length - rest.length < length then
      let (day, _) ← digits? 1 (← separator? separated rest)
      Calendar.weekDay? year week day
    else
      Calendar.weekDay? year week 1
  else
    let (month, rest) ← digits? 2 rest
    let (day, _) ← digits? 2 (← separator? separated rest)
    Calendar.day? year month day

structure Clock where
  hour : Nat := 0
  minute : Nat := 0
  second : Nat := 0
  micro : Nat := 0
  deriving Repr, DecidableEq

namespace Clock

def seconds (c : Clock) : Nat := c.hour * 3600 + c.minute * 60 + c.second

def isTimeOfDay (c : Clock) : Bool := c.hour < 24 && c.minute < 60 && c.second < 60

end Clock

/-- Fields of a clock that were read, and the fraction of a second that follows if there is one. -/
structure Fields where
  values : List Nat
  fraction : Option Bytes := none
  more : Bool := true

/-- Up to `left` further fields of two digits; the text ends where `stop` bytes are left. Whether there
are separators shows after the first field. -/
def fields? (stop : Nat) : (left : Nat) → (separated : Bool) → List Nat → Bytes → Option Fields
  | 0, _, values, bs => some { values, fraction := some bs }
  | left + 1, separated, values, bs => do
    let (value, bs) ← digits? 2 bs
    let next := peek bs
    let after := bs.drop 1
    let separated := if values.isEmpty then next = byte ':' else separated
    let values := values ++ [value]
    if after.length ≤ stop then some { values, more := next ≠ 0 }
    else if separated ∧ next = byte ':' then fields? stop left separated values after
    else if next = byte '.' ∨ next = byte ',' then some { values, fraction := some after }
    else if !separated then fields? stop left separated values bs
    else none

/-- A clock, and whether anything follows it. A fraction is cut to six digits. -/
def clock? (stop : Nat) (bs : Bytes) : Option (Clock × Bool) := do
  let fields ← fields? stop 3 true [] bs
  let value (i : Nat) : Nat := fields.values.getD i 0
  let clock : Clock := { hour := value 0, minute := value 1, second := value 2 }
  match fields.fraction with
  | none => some (clock, fields.more)
  | some bs =>
    let places := min 6 (bs.length - stop)
    let (micro, rest) ← digits? places bs
    let rest := rest.dropWhile isDigitByte
    some ({ clock with micro := micro * Nat.pow 10 (6 - places) }, peek rest ≠ 0)

/-- An offset from universal time, in microseconds. -/
abbrev Offset := Int

def dayMicros : Int := 86400 * 1000000

/-- An offset after its sign; offsets are below one day. One of no whole second is none. -/
def offset? (negative : Bool) (bs : Bytes) : Option Offset := do
  let (clock, more) ← clock? 0 bs
  if more then failure
  if clock.seconds = 0 then return 0
  let micros : Int := clock.seconds * 1000000 + clock.micro
  if micros < dayMicros then return if negative then -micros else micros
  else failure

def isOffsetMark (b : Nat) : Bool := b = byte '+' || b = byte '-' || b = byte 'Z'

def time? (bs : Bytes) : Option (Clock × Offset) := do
  let tail := bs.dropWhile (!isOffsetMark ·)
  let (clock, more) ← clock? tail.length bs
  if !clock.isTimeOfDay then failure
  match tail with
  | [] => if more then failure else return (clock, 0)
  | mark :: rest =>
    if mark = byte 'Z' then
      if peek rest = 0 then return (clock, 0) else failure
    else
      return (clock, ← offset? (mark = byte '-') rest)

/-- How many bytes a character takes, by its first byte. -/
def charLength (b : Nat) : Nat :=
  if b < 128 then 1
  else if b / 16 = 14 then 3
  else if b / 16 = 15 then 4
  else 2

/-- The microseconds from the epoch to the instant that a text names; without an offset it is meant
in universal time. -/
def micros? (t : Text) : Option Int := do
  let bs ← bytes? t
  let length ← dateLength? bs
  let day ← date? length bs
  let (clock, offset) ←
    if length < bs.length then
      let rest := bs.drop length
      time? (rest.drop (charLength (peek rest)))
    else pure ({ }, 0)
  return (((day : Int) - Calendar.epochDay) * 86400 + clock.seconds) * 1000000 + clock.micro - offset

/-- The seconds from the epoch to the instant that a text names, as the whole part of a double. -/
def seconds? (t : Text) : Option Int :=
  (micros? t).map fun micros => Double.trunc (Double.nearest micros 1000000)

end ChartOverlay.Instant
