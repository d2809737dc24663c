import ChartOverlay.Json.Reader
import ChartOverlay.Service.Reference
import ChartOverlay.Text.Utf8

/-!
# Targets of requests

A request names its target by a reference, of which only the path tells where the request goes. Its dot
segments are removed, and percent signs with two hexadecimal digits stand for bytes. They do so twice, once
in the reference and once in the path that is found in it.
-/

namespace ChartOverlay.Service

inductive TargetError
  | tooLong
  | control (c : CodePoint) (position : Nat)
  | host (error : HostError)
  | port (text : Text)
  /-- A path without an authority begins like one. -/
  | beginsWith (text : Text)
  | uncodable (error : CodingError)
  | partTooLong (name : String)
  /-- Requests are not sent by a scheme of this name. -/
  | scheme (name : Text)
  /-- After the first colon of a host with a port there is more than a port. -/
  | place (text : Text)
  deriving Repr, DecidableEq

def TargetError.message : TargetError → Text
  | tooLong => "URL too long"
  | control c position =>
    let what := quoted [c]
    s!"Invalid non-printable ASCII character in URL, {what} at position {position}."
  | host e => e.message
  | port text => "Invalid port: " ++ quoted text
  | beginsWith text => "Relative URLs cannot have a path starting with " ++ quoted text
  | uncodable e => e.message
  | partTooLong name => s!"URL component '{name}' too long"
  | scheme name => name
  | place text => "invalid literal for int() with base 10: " ++ (Text.ofString (quoted text)).take 200

namespace Target

/-- How long a reference may be, and each part of one that is completed. -/
def maxLength : Nat := 65536

def isControl (c : CodePoint) : Bool := c.code < 0x20 || c.code = 0x7f

/-- The ports that are meant where none is named. -/
def defaultPorts : List (Text × Int) := [("http", 80), ("https", 443), ("ws", 80), ("wss", 443)]

/-- Refuses half of a pair, since a reference is written as bytes one code point after the other. -/
def codable (t : Text) : Except TargetError Unit :=
  match (t.find? (·.isHalf)).bind fun c => CodingError.utf8? [c] with
  | some e => .error (.uncodable e)
  | none => .ok ()

def check (r : Reference) : Except TargetError Unit := do
  let authority := r.authority
  codable authority.user
  if let some e := HostError.ofText? authority.host then throw (.host e)
  if !authority.port.isEmpty && (wholeNumber? authority.port).isNone then throw (.port authority.port)
  if r.scheme.isEmpty && authority.isEmpty then
    if let .char '/' :: .char '/' :: _ := r.path then throw (.beginsWith "//")
    if let .char ':' :: _ := r.path then throw (.beginsWith ":")
  codable r.path
  codable (r.query.getD [])
  codable r.fragment

def reference? (t : Text) : Except TargetError Reference := do
  if maxLength < t.length then throw .tooLong
  if let c :: after := t.dropWhile (!isControl ·) then
    throw (.control c (t.length - (after.length + 1)))
  let r := Reference.ofText t
  check r
  return r

/-- How long a text is with its bytes as percent signs and two digits each, unless they are plain. -/
def escapedLength (isPlain : Char → Bool) (t : Text) : Nat :=
  let length : CodePoint → Nat
    | .char c => if 0x20 < c.toNat && c.toNat < 0x7f && isPlain c then 1 else 3 * c.utf8Size
    | .half _ => 3
  t.foldl (fun n c => n + length c) 0

def isPlainInQuery (c : Char) : Bool := c ≠ doubleQuote && c ≠ '#' && c ≠ '<' && c ≠ '>'

def isPlainInPath (c : Char) : Bool :=
  isPlainInQuery c && c ≠ '?' && c.toNat ≠ 0x60 && c.toNat ≠ 0x7b && c.toNat ≠ 0x7d

/-- The path of a reference that is completed by the place of the service. -/
def completed? (r : Reference) : Except TargetError Text := do
  let path : Text := '/' :: r.path.dropWhile (· = .char '/')
  if maxLength < escapedLength isPlainInPath path then throw (.partTooLong "path")
  if maxLength < escapedLength isPlainInQuery (r.query.getD []) then throw (.partTooLong "query")
  return path

/-- The path of a reference that is complete. Its host is told from its port by the first colon, though an
address in brackets has others. -/
def complete? (r : Reference) : Except TargetError Text := do
  let scheme := r.scheme.map (·.map Char.toLower)
  let some _ := defaultPorts.lookup scheme | throw (.scheme scheme)
  let host := r.authority.host
  if Host.isBracketed host then
    let port : Text := match wholeNumber? r.authority.port with
      | some n => if defaultPorts.lookup r.scheme = some n then [] else ":" ++ Text.ofString (toString n)
      | none => []
    throw (.place ((host.dropWhile (· ≠ .char ':')).drop 1 ++ port))
  return r.path

/-- The segments of a path, each dot segment removed, a double one with the segment before it. -/
def withoutDots (segments : List (List Char)) : List (List Char) :=
  segments.foldl (fun before segment =>
    if segment = ['.'] then before
    else if segment = ['.', '.'] then if before = [[]] then before else before.dropLast
    else before ++ [segment]) []

/-- The bytes of a text in which a percent sign and two hexadecimal digits stand for one. -/
def unescape : List Char → List UInt8
  | '%' :: a :: b :: rest =>
    match Json.hexValue? a, Json.hexValue? b with
    | some high, some low => UInt8.ofNat (16 * high + low) :: unescape rest
    | _, _ => '%'.toString.toUTF8.toList ++ unescape (a :: b :: rest)
  | c :: rest => c.toString.toUTF8.toList ++ unescape rest
  | [] => []

def decode (cs : List Char) : List Char := Utf8.decode (unescape cs)

def path? (t : Text) : Except TargetError String := do
  let r ← reference? t
  let path ← if r.isAbsolute then complete? r else completed? r
  let segments := withoutDots ((path.filterMap (·.char?)).splitOn '/')
  let path := ['/'].intercalate segments
  return String.ofList (decode (decode (if path = [] then ['/'] else path)))

end Target

end ChartOverlay.Service
