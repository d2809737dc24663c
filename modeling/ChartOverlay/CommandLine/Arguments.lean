import ChartOverlay.Feed.Provider
import ChartOverlay.Text.Number

/-!
# Command line arguments

Options have long names, of which a part from the start will do if no other option starts with it. A
value follows its option or is joined to it by an equals sign. There are no other arguments, so that a
mark that ends the options is refused too.
-/

namespace ChartOverlay.CommandLine

structure Arguments where
  help : Bool := false
  serve : Bool := false
  listTemplates : Bool := false
  candles : Option Text := none
  symbol : Option Text := none
  timeframe : Text := defaultTimeframe
  scripts : List Text := []
  scriptFiles : List Text := []
  templates : List Text := []
  deriving Repr, DecidableEq

inductive Choice
  | serve
  | listTemplates
  | host
  | port
  | candles
  | symbol
  | timeframe
  | script
  | scriptFile
  | template
  | verbose
  | help
  deriving Repr, DecidableEq

namespace Choice

def names : List (Text × Choice) :=
  [("--help", help), ("--serve", serve), ("--list-templates", listTemplates), ("--host", host),
   ("--port", port),
   ("--candles", candles), ("--symbol", symbol), ("--timeframe", timeframe), ("--script", script),
   ("--script-file", scriptFile), ("--template", template), ("--verbose", verbose), ("-v", verbose),
   ("-h", help)]

def isFlag : Choice → Bool
  | serve | listTemplates | verbose | help => true
  | _ => false

end Choice

/-- What an argument is before it is known what it belongs to. -/
inductive Word
  | choice (c : Choice) (joined : Option Text)
  | plain (text : Text)
  deriving Repr, DecidableEq

/-- Whether a text is a negative number: digits after a minus sign, with a point or without. -/
def isNegativeNumber : Text → Bool
  | .char '-' :: rest =>
    let whole := rest.takeWhile isDigit
    match rest.dropWhile isDigit with
    | [] | [.char '\n'] => !whole.isEmpty
    | .char '.' :: more =>
      let fraction := more.takeWhile isDigit
      let tail := more.dropWhile isDigit
      !fraction.isEmpty && (tail = [] || tail = [.char '\n'])
    | _ => false
  | _ => false

/-- The parts of an argument before and after its first equals sign. -/
def splitJoined (t : Text) : Text × Option Text :=
  match t.dropWhile (· ≠ .char '=') with
  | _ :: value => (t.takeWhile (· ≠ .char '='), some value)
  | [] => (t, none)

def candidates (start : Text) : List Choice :=
  (Choice.names.filter fun (name, _) => start.isPrefixOf name).map (·.2)

/-- The flags that are raised by one letter, joined after one minus sign. An equals sign may stand after
the first of several. -/
def joinedFlags? (t : Text) : Option Choice :=
  let letters : Text := match t with
    | [.char '-', _, .char '='] => []
    | .char '-' :: c :: .char '=' :: rest => c :: rest
    | .char '-' :: rest => rest
    | _ => []
  if letters.isEmpty ∨ letters.any (fun c => c ≠ 'v' && c ≠ 'h') then none
  else some (if letters.contains 'h' then .help else .verbose)

/-- Whether an argument begins like an option: with a minus sign and more. -/
def isOptionLike : Text → Bool
  | .char '-' :: _ :: _ => true
  | _ => false

/-- An argument by itself; nothing if it is an option that does not exist or more than one. -/
def Word.ofText? (t : Text) : Option Word :=
  if !isOptionLike t then some (.plain t)
  else
    let (name, joined) := splitJoined t
    match joinedFlags? t, Choice.names.lookup t, Choice.names.lookup name with
    | some c, _, _ => some (.choice c none)
    | none, some c, _ => some (.choice c none)
    | none, none, some c => some (.choice c joined)
    | none, none, none =>
      let start := Text.ofString "--"
      match if start.isPrefixOf t then candidates name else [] with
      | [c] => some (.choice c joined)
      | _ :: _ :: _ => none
      | [] =>
        match t with
        | _ :: .char 'v' :: _ | _ :: .char 'h' :: _ => none
        | _ => if isNegativeNumber t ∨ t.contains (.char ' ') then some (.plain t) else none

namespace Arguments

def raise (a : Arguments) : Choice → Arguments
  | .serve => { a with serve := true }
  | .listTemplates => { a with listTemplates := true }
  | .help => { a with help := true }
  | _ => a

/-- The arguments with an option set to a value; only one source of candles may be given. -/
def set? (a : Arguments) (value : Text) : Choice → Option Arguments
  | .port => if (wholeNumber? value).isSome then some a else none
  | .candles => if a.symbol.isSome then none else some { a with candles := some value }
  | .symbol => if a.candles.isSome then none else some { a with symbol := some value }
  | .timeframe => some { a with timeframe := value }
  | .script => some { a with scripts := a.scripts ++ [value] }
  | .scriptFile => some { a with scriptFiles := a.scriptFiles ++ [value] }
  | .template => some { a with templates := a.templates ++ [value] }
  | _ => some a

/-- Reads words up to one that asks for help; one that belongs to no option is refused. -/
def ofWords? (a : Arguments) : List Word → Option Arguments
  | [] => some a
  | .choice .help none :: _ => some (a.raise .help)
  | .choice c none :: rest =>
    if c.isFlag then ofWords? (a.raise c) rest
    else match rest with
      | .plain value :: rest => do ofWords? (← a.set? value c) rest
      | _ => none
  | .choice c (some value) :: rest => if c.isFlag then none else do ofWords? (← a.set? value c) rest
  | .plain _ :: _ => none

def parse? (args : List Text) : Option Arguments := do ofWords? { } (← args.mapM Word.ofText?)

end Arguments

end ChartOverlay.CommandLine
