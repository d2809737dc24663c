import ChartOverlay.Engine.Registry
import ChartOverlay.Feed.Loading
import ChartOverlay.Report
import ChartOverlay.Service.Route
import ChartOverlay.Text.Capital
import ChartOverlay.Validation.Record

/-!
# Web service

Overlays, previews and templates over HTTP. A request is answered from its method, path and body and
from the reply of the provider, if it asks for the candles of a symbol. An answer has to be written as
text; where that cannot be done, the request fails.
-/

namespace ChartOverlay

namespace Service

/-- A request; its method is read in any case. -/
structure Request where
  method : Text
  path : String
  body : String := ""
  deriving Repr

inductive Answer
  | success (body : Json)
  /-- A message under a status other than success. -/
  | refused (status : Nat) (detail : String)
  /-- The body departs from what the route asks for. -/
  | unprocessable (problems : List Problem)
  /-- The candles of a body are out of order. -/
  | disordered (d : Disorder)
  /-- There is no value in the body: it is empty, or a page for readers. -/
  | bare (status : Nat)
  | crashed

def Answer.status : Answer → Nat
  | success _ => 200
  | refused status _ => status
  | unprocessable _ => 422
  | disordered _ => 422
  | bare status => status
  | crashed => 500

/-- An answer, with the request to the provider that was made for it. -/
structure Handled where
  answer : Answer
  asked : Option ProxyRequest := none

/-! ### Bodies -/

/-- An answer that lists problems, together with the values that were found. -/
def refuse (problems : List Problem) : Answer :=
  if problems.all (·.quotable) then .unprocessable problems else .crashed

def problem (places : List Place) (cause : Cause) : Answer :=
  refuse [{ place := .field "body" :: places, cause }]

/-- How many lists and records may lie in each other in a body. The service has work under way when it reads
one, which leaves room for fewer. -/
def bodyDepth : Nat := 967

/-- How many may lie in each other in an answer of the provider, when there is even more under way. -/
def replyDepth : Nat := 962

/-- What a body holds; one that is empty is missing. -/
def body? (body : String) : Except Answer Json :=
  if body = "" then .error (problem [] .missing)
  else (Json.readBody body bodyDepth).mapError fun
    | .unacceptable (.malformed position) => problem [.item position] .invalidJson
    | _ => .refused 400 "There was an error parsing the body"

/-- A body that is read as a record or a list. -/
def checked? {β : Type} (body : String) (check : Json → Validated β) : Except Answer β := do
  match (check (← body? body)).within (.field "body") with
  | .valid x => return x
  | .invalid problems => throw (refuse problems)

structure OverlayRequest where
  candles : List (Candle Float)
  scripts : List Text
  colorIndex : Int

structure ChartRequest where
  scripts : List Text
  timeframe : Option Text
  colorIndex : Int

open Validated in
def OverlayRequest.read (j : Json) : Validated OverlayRequest :=
  if j.isObject then
    OverlayRequest.mk <$> required j "candles" (list (Candle.read .requestType)) <*>
      optional j "scripts" [] (list Field.text) <*> optional j "color_index" 0 Field.whole
  else fail .requestType j

open Validated in
def ChartRequest.read (j : Json) : Validated ChartRequest :=
  if j.isObject then
    ChartRequest.mk <$> optional j "scripts" [] (list Field.text) <*>
      optional j "timeframe" none (Field.nullable Field.text) <*> optional j "color_index" 0 Field.whole
  else fail .requestType j

/-! ### Answers -/

/-- Whether a value can be sent: its whole numbers fit into 64 bits, signed or unsigned, and its texts are
rows of characters. -/
def fits (j : Json) : Bool :=
  !j.hasHalves && j.all fun
    | .whole n => -wordBound ≤ n && n < 2 * wordBound
    | _ => true

mutual

/-- A value with null for every double that is not finite. -/
def withoutInfinities : Json → Json
  | .number x => if x.isFinite then .number x else .null
  | .array items => .array (itemsWithout items)
  | .object fields => .object (fieldsWithout fields)
  | j => j

def itemsWithout : List Json → List Json
  | [] => []
  | x :: rest => withoutInfinities x :: itemsWithout rest

def fieldsWithout : List (Text × Json) → List (Text × Json)
  | [] => []
  | (name, x) :: rest => (name, withoutInfinities x) :: fieldsWithout rest

end

/-- A body as it can be sent. -/
def send (j : Json) : Answer := if fits j then .success (withoutInfinities j) else .crashed

def statusReport : Json := .object
  [("service", .string "chart-overlays"), ("status", .string "running"), ("version", .string "0.1.0"),
   ("engines", .array (Registry.builtIn.names.map .string))]

def previews (scripts : List Text) : Answer :=
  match scripts.mapM Script.preview? with
  | .ok labels => send (.array (List.zipWith (fun script label =>
      .object [("script", .string script), ("preview", .string label)]) scripts labels))
  | .error _ => .crashed

def history? (candles : List (Candle Float)) : Except Answer (History Float) :=
  (History.ofCandles? candles).mapError .disordered

def overlayAnswer (r : OverlayRequest) : Except Answer Answer := do
  let history ← history? r.candles
  let bundle ← (overlays? history r.scripts r.colorIndex).mapError fun _ => .crashed
  return send bundle.report

def timeframeOf (asked : Option Text) : Text :=
  match asked with
  | some [] | none => defaultTimeframe
  | some t => t

def ChartRequest.query (r : ChartRequest) (symbol : String) : ChartQuery :=
  { symbol, timeframe := .string (timeframeOf r.timeframe) }

def chartAnswer (world : Surroundings) (reply : Reply) (symbol : String) (r : ChartRequest) :
    Except Answer Answer := do
  let query := r.query symbol
  let loaded ← (Feed.load { } { world with depth := replyDepth } query reply).2.mapError fun _ => .crashed
  let history ← history? loaded.candles
  let bundle ← (overlays? history r.scripts r.colorIndex).mapError fun _ => .crashed
  let chart : List (Text × Json) :=
    [("symbol", .string query.symbol), ("timeframe", query.timeframe),
     ("candles", .array (loaded.candles.map Candle.report)), ("is_placeholder", .bool loaded.isPlaceholder)]
  return send (.object (bundle.fields ++ chart))

/-- Either kind of outcome of a computation of one type. -/
def settle : Except Answer Answer → Answer
  | .ok a => a
  | .error a => a

def handleRoute (world : Surroundings) (reply : Reply) (body : String) : Route → Handled
  | .health => { answer := send (.object [("status", .string "ok")]) }
  | .status => { answer := send statusReport }
  | .templates => { answer := send (.array (Template.all.map Template.report)) }
  | .template name => {
      answer := match Template.find? name with
        | some t => send t.report
        | none => .refused 404 ("Template '" ++ name ++ "' not found") }
  | .preview => { answer := settle (previews <$> checked? body (Validated.list Field.text)) }
  | .overlays => { answer := settle (checked? body OverlayRequest.read >>= overlayAnswer) }
  | .chart symbol =>
    match checked? body ChartRequest.read with
    | .error a => { answer := a }
    | .ok r =>
      { answer := settle (chartAnswer world reply symbol r), asked := (r.query symbol).sent? }
  | .description => { answer := .bare 200 }

/-- An answer to a request that asks for no body. -/
def Handled.withoutBody (h : Handled) : Handled := { h with answer := .bare h.answer.status }

/-- The answer to a request; the reply is that of the provider if it is asked. -/
def handle (world : Surroundings) (reply : Reply) (r : Request) : Handled :=
  let method := r.method.inCapitals
  let handled := match Route.ofPath? r.path with
    | some route =>
      if route.methods.contains method then handleRoute world reply r.body route
      else { answer := .refused 405 "Method Not Allowed" }
    | none =>
      { answer := if Route.leadsAway r.path then .bare 307 else .refused 404 "Not Found" }
  if method = Text.ofString "HEAD" then handled.withoutBody else handled

end Service

end ChartOverlay
