import ChartOverlay.Json.Basic
import ChartOverlay.Overlay
import ChartOverlay.Script.Template

/-!
# Reports

Candles, results and markers as data values.
-/

namespace ChartOverlay

def Json.ofOption (x : Option Json) : Json := x.getD .null

def Candle.report (c : Candle Float) : Json := .object
  [("time", .whole c.time), ("open", .number c.opening), ("high", .number c.high), ("low", .number c.low),
   ("close", .number c.close), ("volume", .ofOption (c.volume.map .number))]

def Point.report (p : Point Float) : Json := .object [("time", .whole p.time), ("value", .number p.value)]

def Line.report (l : Line Float) : Json := .object
  [("label", .string l.label), ("color", .string l.color), ("points", .array (l.points.map Point.report)),
   ("width", .whole l.width), ("style", .ofOption (l.style.map .whole))]

def Result.report (r : Result Float) : Json := .object
  [("name", .string r.name), ("kind", .string r.kind.name), ("lines", .array (r.lines.map Line.report))]

def Marker.report (m : Marker Float) : Json := .object
  [("time", .whole m.time), ("type", .string m.signal.name), ("price", .number m.price)]

def Bundle.fields (b : Bundle Float) : List (Text × Json) :=
  [("results", .array (b.results.map Result.report)), ("markers", .array (b.markers.map Marker.report)),
   ("next_color_index", .whole b.nextColorIndex)]

def Bundle.report (b : Bundle Float) : Json := .object b.fields

def Template.report (t : Template) : Json := .object [("name", .string t.name), ("script", .string t.script)]

end ChartOverlay
