import ChartOverlay.Text.Quoted
import ChartOverlay.Text.Unit

/-!
# Encodings

Texts are written as bytes, and not every encoding has every code point. A value that comes in bytes may
be laid out in one of several encodings; the zeros among its first bytes tell which, because the text of
a value begins with a character of ASCII.
-/

namespace ChartOverlay

/-- Why a text cannot be written in an encoding, or bytes cannot be read in it: the first code point or
byte that it fails at, where that stands, and how many there are in a row. -/
inductive CodingError
  | unwritable (encoding : String) (first : CodePoint) (position count : Nat) (reason : String)
  | unreadable (encoding : String) (first : UInt8) (position count : Nat) (reason : String)
  deriving Repr, DecidableEq

namespace CodingError

/-- One position, or the first and the last of several. -/
def span (position count : Nat) : String :=
  if count ≤ 1 then s!"in position {position}" else s!"in position {position}-{position + count - 1}"

def message : CodingError → String
  | unwritable encoding first position count reason =>
    let what := if count ≤ 1 then "character '" ++ String.ofList (numbered first) ++ "'" else "characters"
    s!"'{encoding}' codec can't encode {what} {span position count}: {reason}"
  | unreadable encoding first position count reason =>
    let what := if count ≤ 1 then "byte 0x" ++ String.ofList (hexText 2 first.toNat) else "bytes"
    s!"'{encoding}' codec can't decode {what} {span position count}: {reason}"

/-- The first run of code points that an encoding does not have. -/
def ofText? (encoding reason : String) (has : CodePoint → Bool) (t : Text) : Option CodingError :=
  let before := t.takeWhile has
  match (t.dropWhile has).takeWhile (!has ·) with
  | [] => none
  | c :: more => some (.unwritable encoding c before.length (more.length + 1) reason)

def ascii? (t : Text) : Option CodingError :=
  ofText? "ascii" "ordinal not in range(128)" (·.code < 128) t

def utf8? (t : Text) : Option CodingError :=
  ofText? "utf-8" "surrogates not allowed" (!·.isHalf) t

/-- Why a text cannot be a path: as in UTF-8, but some halves stand for bytes that are no text. -/
def path? (t : Text) : Option CodingError :=
  ofText? "utf-8" "surrogates not allowed" (fun c => !c.isHalf || (0xdc80 ≤ c.code && c.code ≤ 0xdcff)) t

end CodingError

/-- A text as the characters that UTF-8 can write. -/
def Text.string? (t : Text) : Except CodingError String :=
  match CodingError.utf8? t with
  | some e => .error e
  | none => .ok t.shown

inductive ByteOrder
  | big
  | little
  deriving Repr, DecidableEq

namespace ByteOrder

def suffix : ByteOrder → String
  | big => "be"
  | little => "le"

def number (order : ByteOrder) (bytes : List UInt8) : Nat :=
  let bytes := match order with
    | big => bytes
    | little => bytes.reverse
  bytes.foldl (fun n b => 0x100 * n + b.toNat) 0

end ByteOrder

inductive Encoding
  | utf8
  | utf16 (order : ByteOrder)
  | utf32 (order : ByteOrder)
  deriving Repr, DecidableEq

namespace Encoding

def name : Encoding → String
  | utf8 => "utf-8"
  | utf16 order => "utf-16-" ++ order.suffix
  | utf32 order => "utf-32-" ++ order.suffix

/-- The encoding that the zeros among the first bytes tell. -/
def ofBytes : List UInt8 → Encoding
  | a :: b :: c :: d :: _ =>
    if a = 0 then (if b = 0 then utf32 .big else utf16 .big)
    else if b = 0 then (if c = 0 ∧ d = 0 then utf32 .little else utf16 .little)
    else utf8
  | [a, b] => if a = 0 then utf16 .big else if b = 0 then utf16 .little else utf8
  | _ => utf8

def unreadable (e : Encoding) (first : UInt8) (position count : Nat) (reason : String) : CodingError :=
  .unreadable e.name first position count reason

/-- The units of two bytes each that begin at a position. -/
def units? (order : ByteOrder) (position : Nat) : List UInt8 → Except CodingError (List Nat)
  | a :: b :: rest => return order.number [a, b] :: (← units? order (position + 2) rest)
  | [a] => .error ((utf16 order).unreadable a position 1 "truncated data")
  | [] => .ok []

/-- The text of four bytes for each code point that begins at a position. -/
def wides? (order : ByteOrder) (position : Nat) : List UInt8 → Except CodingError Text
  | a :: b :: c :: d :: rest =>
    let n := order.number [a, b, c, d]
    if 0x110000 ≤ n then
      .error ((utf32 order).unreadable a position 4 "code point not in range(0x110000)")
    else return .ofCode n :: (← wides? order (position + 4) rest)
  | a :: rest => .error ((utf32 order).unreadable a position (rest.length + 1) "truncated data")
  | [] => .ok []

/-- The text of a value that comes as the bytes of a body in UTF-8, without the mark that may stand in
front of it. -/
def textOfBody? (body : String) : Except CodingError Text :=
  match body.toList with
  | '\ufeff' :: rest => .ok (.ofChars rest)
  | cs =>
    match ofBytes (String.ofList (cs.take 4)).toUTF8.toList with
    | utf8 => .ok (.ofChars cs)
    | utf16 order => return .ofUnits (← units? order 0 body.toUTF8.toList)
    | utf32 order => wides? order 0 body.toUTF8.toList

end Encoding

end ChartOverlay
