import ChartOverlay.Text.Digit
import ChartOverlay.Text.Quoted
import ChartOverlay.Text.Word

/-!
# Hosts

A host is an address of four numbers with points between them, an address of eight groups of hexadecimal
digits in brackets, or a name. Names of letters beyond ASCII have stricter rules than those within.
-/

namespace ChartOverlay.Service

namespace Host

/-- Whether a text is a number that fits into a byte, without a zero in front of it. -/
def isOctet (t : Text) : Bool :=
  t.all isAsciiDigit && 0 < t.length && t.length ≤ 3 && digitsValue t ≤ 255 &&
    (t.head? ≠ some (.char '0') || t.length = 1)

def isFourNumbers (t : Text) : Bool :=
  let parts := t.splitOn (.char '.')
  parts.length = 4 && parts.all isOctet

/-- The rows of digits in a text; what stands between them is one code point each time. -/
def digitRows (t : Text) : List Text := t.splitOnP (!isAsciiDigit ·)

/-- Whether a text is to be read as four numbers: rows of digits with any one code point between them.
A digit may also be what stands between two rows, so that a row counts for as many as it can be cut into. -/
def looksLikeFourNumbers (t : Text) : Bool :=
  let rows := digitRows t
  rows.all (!·.isEmpty) && rows.length ≤ 4 && 4 ≤ rows.foldl (fun n row => n + (row.length + 1) / 2) 0

def isHexDigit (c : CodePoint) : Bool :=
  c.isChar fun c => c.isDigit || ('a' ≤ c && c ≤ 'f') || ('A' ≤ c && c ≤ 'F')

/-- Whether a text is a group of up to four hexadecimal digits. -/
def isGroup (t : Text) : Bool := t.all isHexDigit && 0 < t.length && t.length ≤ 4

/-- The parts of an address between colons, with two groups for four numbers at its end. -/
def groups? (t : Text) : Option (List Text) :=
  let parts := t.splitOn (.char ':')
  let last := parts.getLast?.getD []
  if parts.length < 3 then none
  else if !last.contains (.char '.') then some parts
  else if isFourNumbers last then some (parts.dropLast ++ (["0", "0"] : List Text))
  else none

/-- Whether parts make up eight groups. One part between two others may be empty; it stands for one or more
groups of zero, and the parts on either side of it may be no more than an empty one at the end. -/
def areEightGroups (parts : List Text) : Bool :=
  let inner := (parts.drop 1).dropLast
  match inner.filter (·.isEmpty) with
  | [] => parts.length = 8 && parts.all isGroup
  | [_] =>
    let place := 1 + inner.idxOf []
    let side (parts : List Text) : List Text := if parts = [[]] then [] else parts
    let sides := side (parts.take place) ++ side (parts.drop (place + 1))
    sides.length ≤ 7 && sides.all isGroup
  | _ => false

/-- Whether a text is an address of eight groups, possibly with the name of a zone after a percent sign. -/
def isEightGroups (t : Text) : Bool :=
  let address := t.takeWhile (· ≠ .char '%')
  let isZoned : Bool := match t.dropWhile (· ≠ .char '%') with
    | [] => true
    | _ :: zone => !zone.isEmpty && !zone.contains (.char '%')
  isZoned && ((groups? address).map areEightGroups).getD false

/-- What separates the labels of a name beyond ASCII. -/
def isStop (c : CodePoint) : Bool := c = '.' || c = '。' || c = '．' || c = '｡'

/-- Whether a text is a label of a name: words with hyphens between them, though not two at the place that
is kept for encoded ones. -/
def isLabel (t : Text) : Bool :=
  !t.isEmpty && t.all (fun c => c = '-' || (c ≠ '_' && isWord c)) && t.head? ≠ some (.char '-') &&
    t.getLast? ≠ some (.char '-') && (t.drop 2).take 2 ≠ [.char '-', .char '-']

def isWideName (t : Text) : Bool :=
  let labels := t.splitOnP isStop
  let labels := if labels.getLast? = some [] then labels.dropLast else labels
  !labels.isEmpty && labels.all isLabel

def isBracketed (t : Text) : Bool := t.head? = some (.char '[') && t.getLast? = some (.char ']') && 2 ≤ t.length

def unbracketed (t : Text) : Text := (t.drop 1).dropLast

end Host

inductive HostError
  | fourNumbers (host : Text)
  | eightGroups (host : Text)
  | name (host : Text)
  deriving Repr, DecidableEq

def HostError.message : HostError → String
  | fourNumbers host => "Invalid IPv4 address: " ++ quoted host
  | eightGroups host => "Invalid IPv6 address: " ++ quoted host
  | name host => "Invalid IDNA hostname: " ++ quoted host

open Host in
def HostError.ofText? (host : Text) : Option HostError :=
  if looksLikeFourNumbers host then (if isFourNumbers host then none else some (.fourNumbers host))
  else if isBracketed host then (if isEightGroups (unbracketed host) then none else some (.eightGroups host))
  else if host.all (·.code < 128) || isWideName host then none
  else some (.name host)

end ChartOverlay.Service
