import ChartOverlay.Service.Host

/-!
# References

A reference has a scheme before a colon, an authority after two slashes, a path, a query after a question
mark and a fragment after a number sign. Each part but the path may be left out. An authority names a host,
with a user before it and a port after it.
-/

namespace ChartOverlay.Service

structure Authority where
  user : Text := []
  host : Text := []
  port : Text := []
  deriving Repr, DecidableEq

structure Reference where
  scheme : Text := []
  authority : Authority := { }
  path : Text
  query : Option Text := none
  fragment : Text := []
  deriving Repr, DecidableEq

/-- The parts of a text before and after the last of a code point; without it there is nothing before. -/
def splitAtLast (mark : CodePoint) (t : Text) : Text × Text :=
  let after := (t.reverse.takeWhile (· ≠ mark)).reverse
  (t.take (t.length - after.length - 1), after)

namespace Authority

/-- A host, which ends at a colon or, if it begins with a bracket, after the last that closes one; and what
follows it. -/
def splitHost (t : Text) : Text × Text :=
  let (before, after) := splitAtLast ']' t
  if t.head? = some (.char '[') && !before.isEmpty then (t.take (before.length + 1), after)
  else (t.takeWhile (· ≠ .char ':'), t.dropWhile (· ≠ .char ':'))

def ofText (t : Text) : Authority :=
  let (user, place) := splitAtLast '@' t
  let (host, rest) := splitHost place
  { user, host
    port := match rest with
      | .char ':' :: port => port
      | port => port }

def isEmpty (a : Authority) : Bool := a.user.isEmpty && a.host.isEmpty && a.port.isEmpty

end Authority

namespace Reference

def isSchemePoint (c : CodePoint) : Bool := c.isChar fun c => c.isAlphanum || c = '+' || c = '.' || c = '-'

/-- The scheme in front of a text, which begins with a letter, and what follows it. -/
def splitScheme (t : Text) : Text × Text :=
  let name := t.takeWhile isSchemePoint
  match t.dropWhile isSchemePoint with
  | .char ':' :: rest => if name.head?.all (·.isChar Char.isAlpha) then (name, rest) else ([], t)
  | _ => ([], t)

def splitAuthority : Text → Authority × Text
  | .char '/' :: .char '/' :: rest =>
    let isPart (c : CodePoint) : Bool := c ≠ '/' && c ≠ '?' && c ≠ '#'
    (.ofText (rest.takeWhile isPart), rest.dropWhile isPart)
  | t => ({ }, t)

def ofText (t : Text) : Reference :=
  let (scheme, rest) := splitScheme t
  let (authority, rest) := splitAuthority rest
  let path := rest.takeWhile fun (c : CodePoint) => c ≠ '?' && c ≠ '#'
  let isQueryPart (c : CodePoint) : Bool := c ≠ '#'
  let (query, rest) : Option Text × Text := match rest.drop path.length with
    | .char '?' :: rest => (some (rest.takeWhile isQueryPart), rest.dropWhile isQueryPart)
    | rest => (none, rest)
  { scheme, authority, path, query, fragment := rest.drop 1 }

def isAbsolute (r : Reference) : Bool := !r.scheme.isEmpty && !r.authority.host.isEmpty

end Reference

end ChartOverlay.Service
