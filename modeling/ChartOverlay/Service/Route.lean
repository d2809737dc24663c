import ChartOverlay.Text.Basic

/-!
# Routes

The paths that the service knows. A line break at the end of a path does not count, and a path with too
many slashes at its end leads away to the one without them.
-/

namespace ChartOverlay.Service

inductive Route
  | health
  | status
  | templates
  | template (name : String)
  | preview
  | overlays
  | chart (symbol : String)
  /-- One of the pages that describe the service to its readers. -/
  | description
  deriving Repr, DecidableEq

namespace Route

/-- The routes whose paths are fixed. -/
def fixed : List (List String × Route) :=
  [(["openapi.json"], description), (["docs"], description), (["docs", "oauth2-redirect"], description),
   (["redoc"], description), (["api", "status"], status), (["api", "templates"], templates),
   (["api", "scripts", "preview"], preview), (["api", "overlays"], overlays), (["health"], health)]

/-- The route of segments without a line break at the end. -/
def ofSegments? : List String → Option Route
  | ["api", "charts", symbol, "overlays"] => if symbol = "" then none else some (chart symbol)
  | segments => fixed.lookup segments

/-- A text without a line break at its end. -/
def withoutBreak (s : String) : String :=
  match s.toList.reverse with
  | '\n' :: rest => String.ofList rest.reverse
  | _ => s

/-- The route of a path, if there is one for it as it is. -/
def ofPath? (path : String) : Option Route :=
  match (path.toList.splitOn '/').map String.ofList with
  | ["", "api", "templates", name] => if name = "" then none else some (template name)
  | "" :: segments => ofSegments? (segments.dropLast ++ segments.getLast?.toList.map withoutBreak)
  | _ => none

/-- Whether there is a route for a path once the slashes at its end are gone. -/
def leadsAway (path : String) : Bool :=
  let shorter := (path.toList.reverse.dropWhile (· = '/')).reverse
  path.toList.getLast? = some '/' && (ofPath? (String.ofList shorter)).isSome

def methods : Route → List Text
  | preview | overlays | chart _ => ["POST"]
  | description => ["GET", "HEAD"]
  | _ => ["GET"]

end Route

end ChartOverlay.Service
