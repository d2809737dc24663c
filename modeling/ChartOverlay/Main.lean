import Std.Time.DateTime.Timestamp
import ChartOverlay.CommandLine.Run
import ChartOverlay.Json.Printer

/-!
# Program

Runs a command line on the files, the clock and the random source of the machine. It has no connection
to a provider, so the candles of a symbol are placeholders.
-/

namespace ChartOverlay.CommandLine

def Arguments.paths (a : Arguments) : List Text := a.candles.toList ++ a.scriptFiles

def readFiles : List Text → IO (List (Text × Text))
  | [] => return []
  | path :: rest => do
    let later ← readFiles rest
    try return (path, Text.ofString (← IO.FS.readFile path.shown)) :: later
    catch _ => return later

/-- One of the doubles from zero up to one at equal distances. -/
def drawUnit : IO Float := do
  let steps := Nat.pow 2 53
  return Float.ofNat (← IO.rand 0 (steps - 1)) / Float.ofNat steps

/-- Enough draws for the placeholder candles of one load. -/
def drawAll : Nat → IO (List Float)
  | 0 => return []
  | count + 1 => return (← drawUnit) :: (← drawAll count)

def observe : IO Surroundings := do
  let now ← Std.Time.Timestamp.now
  let draws := (← drawAll (placeholderDraws ({ } : Feed).fallbackCount)).toArray
  return { now := now.toSecondsSinceUnixEpoch.val, draws := fun k => draws.getD k 0.5 }

/-- Prints what a run has found; the result is its exit code. -/
def Outcome.print : Outcome → IO UInt32
  | .exit code lines => do
    lines.forM fun line => IO.println line.shown
    return code.toUInt32
  | .printed p => do
    IO.println p.report.pretty
    return 0
  | .failed e => do
    IO.eprintln e.message
    return 1

end ChartOverlay.CommandLine

open ChartOverlay CommandLine in
def main (args : List String) : IO UInt32 := do
  let args := args.map Text.ofString
  let paths := ((Arguments.parse? args).map Arguments.paths).getD []
  let files ← readFiles paths
  let finished := execute { entries := files } (← observe) (.failed "ConnectError") args
  finished.outcome.print
