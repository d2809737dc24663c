import ChartOverlay.Feed.Payload
import ChartOverlay.Feed.Placeholder
import ChartOverlay.Feed.Provider

/-!
# Loading candles

A feed asks a provider for the candles of a chart and falls back to placeholder candles where the
provider fails or answers with something else.
-/

namespace ChartOverlay

/-- What a feed takes from its surroundings: the time, a source of chance, and how many lists and records may
lie in each other in what it is answered. -/
structure Surroundings where
  now : Int
  draws : Draws Float
  depth : Nat := Json.maxDepth

/-- A feed makes its placeholder candles from one random source, whose draws it goes on from. -/
structure Feed where
  fallbackCount : Int := 200
  drawn : Nat := 0

structure Loaded where
  candles : List (Candle Float)
  isPlaceholder : Bool

inductive LoadError
  | query (error : QueryError)
  | exchange (error : ExchangeError)
  | payload (error : PayloadError)
  deriving Repr, DecidableEq

def LoadError.message : LoadError → String
  | query e => e.message
  | exchange e => e.message
  | payload e => e.message

/-- Whether placeholder candles stand in after an error. -/
def LoadError.isRecoverable : LoadError → Bool
  | query _ => false
  | exchange error => error.isRecoverable
  | payload error => error.isRecoverable

def ChartQuery.candles? (query : ChartQuery) (reply : Reply) (depth : Nat := Json.maxDepth) :
    Except LoadError (List (Candle Float)) := do
  let request ← (ProxyRequest.chart? query).mapError .query
  if let some e := request.sendError? then throw (.exchange (.unsendable e))
  let payload ← (reply.value? depth).mapError .exchange
  (Payload.candles? payload).mapError .payload

namespace Feed

/-- The candles of a chart, given the reply to the request for them. -/
def load (feed : Feed) (world : Surroundings) (query : ChartQuery) (reply : Reply) :
    Feed × Except LoadError Loaded :=
  match query.candles? reply world.depth with
  | .ok candles => (feed, .ok { candles, isPlaceholder := false })
  | .error e =>
    if e.isRecoverable then
      let draws (k : Nat) := world.draws (feed.drawn + k)
      let candles := placeholderCandles query.symbol feed.fallbackCount world.now draws
      let drawn := feed.drawn + placeholderDraws feed.fallbackCount
      ({ feed with drawn }, .ok { candles, isPlaceholder := true })
    else (feed, .error e)

end Feed

end ChartOverlay
