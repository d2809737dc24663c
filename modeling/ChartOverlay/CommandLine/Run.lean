import ChartOverlay.CommandLine.Arguments
import ChartOverlay.CommandLine.Files
import ChartOverlay.Feed.Loading
import ChartOverlay.Report

/-!
# Running a command line

Computes the overlays of scripts over candles from a file or from the feed. Scripts come from
templates, from files and from the command line itself, in this order.
-/

namespace ChartOverlay.CommandLine

/-- What ends a run without an exit code of its own. -/
inductive RunError
  | file (error : FileError)
  /-- A file of candles holds a list or a record that lies in too many others. -/
  | tooDeep (nest : Json.Nest)
  | load (error : LoadError)
  | history (d : Disorder)
  | overlay (error : OverlayError)
  deriving Repr, DecidableEq

def RunError.message : RunError → String
  | file e => e.message
  | tooDeep nest => Json.tooDeepText nest
  | load e => e.message
  | history d => d.message
  | overlay e => e.message

structure Printed where
  bundle : Bundle Float
  isPlaceholder : Bool

def Printed.report (p : Printed) : Json :=
  .object (p.bundle.fields ++ [(("is_placeholder" : Text), .bool p.isPlaceholder)])

inductive Outcome
  | exit (code : Nat) (lines : List Text)
  | printed (p : Printed)
  | failed (error : RunError)

/-- An outcome, with the request to the provider that was made for it. -/
structure Finished where
  outcome : Outcome
  asked : Option ProxyRequest := none

/-- The scripts of all sources; nothing if there is no template of a name. -/
def scripts? (files : Files) (a : Arguments) : Except FileError (Option (List Text)) := do
  match a.templates.mapM Template.find? with
  | none => return none
  | some templates =>
    let fromFiles ← a.scriptFiles.mapM files.read
    return some (templates.map (·.script) ++ fromFiles ++ a.scripts)

inductive CandleFileError
  | file (error : FileError)
  | malformed (error : Json.ReadError)
  | payload (error : PayloadError)

def candlesOfFile? (files : Files) (path : Text) : Except CandleFileError (List (Candle Float)) := do
  let text ← (files.read path).mapError .file
  let payload ← (Json.read text).mapError .malformed
  (Payload.candles? payload).mapError .payload

def compute (candles : List (Candle Float)) (scripts : List Text) (isPlaceholder : Bool) : Outcome :=
  match History.ofCandles? candles with
  | .error d => .failed (.history d)
  | .ok history =>
    match overlays? history scripts 0 with
    | .ok bundle => .printed { bundle, isPlaceholder }
    | .error e => .failed (.overlay e)

def runFile (files : Files) (path : Text) (scripts : List Text) : Outcome :=
  match candlesOfFile? files path with
  | .ok candles => compute candles scripts false
  | .error (.payload e) => if e.isRecoverable then .exit 1 [] else .failed (.load (.payload e))
  | .error (.malformed (.tooDeep nest)) => .failed (.tooDeep nest)
  | .error _ => .exit 1 []

def runChart (world : Surroundings) (reply : Reply) (query : ChartQuery) (scripts : List Text) : Outcome :=
  match (Feed.load { } world query reply).2 with
  | .ok loaded => compute loaded.candles scripts loaded.isPlaceholder
  | .error e => .failed (.load e)

/-- Runs arguments; the reply is that of the provider if it is asked. -/
def run (files : Files) (world : Surroundings) (reply : Reply) (a : Arguments) : Finished :=
  if a.help then { outcome := .exit 0 [] }
  else if a.listTemplates then { outcome := .exit 0 (Template.all.map (·.name)) }
  else if a.serve then { outcome := .exit 0 [] }
  else if a.candles.isNone ∧ a.symbol.isNone then { outcome := .exit 2 [] }
  else match scripts? files a with
    | .error e => { outcome := .failed (.file e) }
    | .ok none => { outcome := .exit 2 [] }
    | .ok (some scripts) =>
      match a.candles, a.symbol with
      | some path, _ => { outcome := runFile files path scripts }
      | none, some symbol =>
        let query : ChartQuery := { symbol, timeframe := .string a.timeframe }
        { outcome := runChart world reply query scripts, asked := query.sent? }
      | none, none => { outcome := .exit 2 [] }

/-- Runs a command line; one that cannot be understood ends with exit code two. -/
def execute (files : Files) (world : Surroundings) (reply : Reply) (args : List Text) : Finished :=
  match Arguments.parse? args with
  | some a => run files world reply a
  | none => { outcome := .exit 2 [] }

end ChartOverlay.CommandLine
