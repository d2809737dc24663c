import ChartOverlay.Json.Printer
import ChartOverlay.Json.Reader

/-!
# Market data provider

A provider is reached through a proxy: every request is one message that names an endpoint and its
parameters. The first request opens a connection pool, which stays open until it is closed. A message is
sent only if it can be written: its parameters have to be finite and its texts rows of characters.
-/

namespace ChartOverlay

/-- A symbol with its exchange; a bare ticker is one of the default exchange. -/
def marketSymbol (symbol : Text) : Text :=
  if symbol.contains ':' then symbol else "IDX:" ++ symbol

/-- What the provider calls the timeframes of a chart. -/
def timeframes : List (Text × Text) :=
  [("1m", "1"), ("5m", "5"), ("15m", "15"), ("1h", "60"), ("4h", "240"), ("D", "D"), ("W", "W"), ("M", "M")]

def defaultTimeframe : Text := "D"

/-- The number of bars that are asked for unless a request names another. -/
def defaultRange : Int := 300

/-- What chart is asked for. The timeframe and the range may be any values. -/
structure ChartQuery where
  symbol : Text
  timeframe : Json := .string defaultTimeframe
  range : Json := .whole defaultRange

/-- Why a chart cannot be asked for: a value with parts names no timeframe. -/
structure QueryError where
  timeframe : Json.Nest
  deriving Repr, DecidableEq

def QueryError.message (e : QueryError) : String := "unhashable type: '" ++ e.timeframe.typeName ++ "'"

/-- The provider's name of a timeframe; what is not known is passed on. -/
def providerTimeframe? : Json → Except QueryError Json
  | .string name => .ok (.string ((timeframes.lookup name).getD name))
  | .array _ => .error ⟨.array⟩
  | .object _ => .error ⟨.object⟩
  | other => .ok other

inductive SendError
  | infinite
  | uncodable (error : CodingError)
  deriving Repr, DecidableEq

def SendError.message : SendError → String
  | infinite => "Out of range float values are not JSON compliant"
  | uncodable e => e.message

def SendError.ofValue? (j : Json) : Option SendError :=
  if j.hasInfinities then some infinite else (CodingError.utf8? j.directText).map uncodable

/-- A request names an endpoint and its parameters; without parameters it has an empty record of them. -/
structure ProxyRequest where
  endpoint : Json
  params : Json := .object []
  deriving Inhabited

namespace ProxyRequest

/-- A request to an endpoint; parameters that are blank are none. -/
def ofParts (endpoint params : Json) : ProxyRequest := ⟨endpoint, if params.isBlank then .object [] else params⟩

def body (r : ProxyRequest) : Json := .object [("endpoint", r.endpoint), ("params", r.params)]

def sendError? (r : ProxyRequest) : Option SendError := SendError.ofValue? r.body

def chart? (q : ChartQuery) : Except QueryError ProxyRequest := do
  return {
    endpoint := .string "/v2/chart/price"
    params := .object
      [("symbol", .string (marketSymbol q.symbol)), ("timeframe", ← providerTimeframe? q.timeframe),
       ("range", q.range)] }

def search (query : Json) : ProxyRequest where
  endpoint := .string "/v2/search/market"
  params := .object [("query", query)]

end ProxyRequest

/-- The request for a chart, if it can be sent. -/
def ChartQuery.sent? (q : ChartQuery) : Option ProxyRequest := do
  let request ← (ProxyRequest.chart? q).toOption
  if request.sendError?.isNone then some request else none

inductive Reply
  /-- The message did not get through; the kind of failure has a name. -/
  | failed (kind : String)
  | answered (status : Int) (body : String)
  | unwritten (error : SendError)
  deriving Repr, DecidableEq

inductive ExchangeError
  /-- The message or the answer to it could not be written. -/
  | unsendable (error : SendError)
  | transport (kind : String)
  | status (code : Int)
  | unreadable (error : CodingError)
  | notJson (position : Nat)
  | tooManyDigits (count : Nat)
  | tooDeep (nest : Json.Nest)
  deriving Repr, DecidableEq

namespace ExchangeError

def message : ExchangeError → String
  | unsendable e => e.message
  | transport kind => kind
  | status code => s!"The provider answered with status {code}"
  | unreadable e => e.message
  | notJson position => s!"The answer of the provider cannot be read at position {position}"
  | tooManyDigits count => tooManyDigitsText count
  | tooDeep nest => Json.tooDeepText nest

def ofBody : Json.BodyError → ExchangeError
  | .unreadable e => unreadable e
  | .unacceptable (.malformed position) => notJson position
  | .unacceptable (.tooManyDigits count) => tooManyDigits count
  | .unacceptable (.tooDeep nest) => tooDeep nest

/-- The kinds of failure that lie with the one who asks, not with the exchange. -/
def askerFailures : List String :=
  ["InvalidURL", "CookieConflict", "StreamError", "StreamConsumed", "StreamClosed", "ResponseNotRead",
   "RequestNotRead"]

/-- Whether an error says that the provider failed, so that it can be passed over. -/
def isRecoverable : ExchangeError → Bool
  | transport kind => !askerFailures.contains kind
  | tooDeep _ => false
  | _ => true

end ExchangeError

/-- The value that a reply carries, if no more than `depth` lists and records lie in each other in it. -/
def Reply.value? (reply : Reply) (depth : Nat := Json.maxDepth) : Except ExchangeError Json :=
  match reply with
  | failed kind => .error (.transport kind)
  | answered status body =>
    if 200 ≤ status ∧ status ≤ 299 then (Json.readBody body depth).mapError .ofBody
    else .error (.status status)
  | unwritten e => .error (.unsendable e)

structure Client where
  baseUrl : Text
  apiKey : Text := []
  isOpen : Bool := false
  deriving Repr, DecidableEq

structure Sent where
  url : Text
  authorization : Option Text
  apiKey : Option Text
  body : Json

namespace Client

/-- Opens the pool, whose headers have to be ASCII, and sends a request. -/
def send (c : Client) (r : ProxyRequest) : Client × Except SendError Sent :=
  let key := if c.apiKey = [] then none else some c.apiKey
  let authorization := key.map fun (key : Text) => Text.ofString "Bearer " ++ key
  match authorization.bind CodingError.ascii? with
  | some e => (c, .error (.uncodable e))
  | none =>
    ({ c with isOpen := true },
     match r.sendError? with
     | some e => .error e
     | none => .ok { url := c.baseUrl, authorization, apiKey := key, body := r.body })

def close (c : Client) : Client := { c with isOpen := false }

end Client

end ChartOverlay
