import ChartOverlay.Text.Basic

/-!
# Data values

The values that are exchanged with callers and providers. Whole numbers are unbounded and apart from
doubles; the fields of a record keep the order in which they first occur.
-/

namespace ChartOverlay

inductive Json
  | null
  | bool (b : Bool)
  | whole (n : Int)
  | number (x : Float)
  | string (t : Text)
  | array (items : List Json)
  | object (fields : List (Text × Json))
  deriving Inhabited

namespace Json

def field? : Json → Text → Option Json
  | object fields, name => fields.lookup name
  | _, _ => none

/-- Fields with one of them set, in its place if it is there. -/
def setField (name : Text) (value : Json) : List (Text × Json) → List (Text × Json)
  | [] => [(name, value)]
  | (key, old) :: rest =>
    if key = name then (key, value) :: rest else (key, old) :: setField name value rest

/-- Whether a value counts as absent where there is an alternative: zero, empty or null. -/
def isBlank : Json → Bool
  | null => true
  | bool b => !b
  | whole n => n = 0
  | number x => x == 0.0
  | string t => t.isEmpty
  | array items => items.isEmpty
  | object fields => fields.isEmpty

def isObject : Json → Bool
  | object _ => true
  | _ => false

mutual

/-- Whether a property holds of every value in a value that has no parts, names of fields included. -/
def all (holds : Json → Bool) : Json → Bool
  | array items => allItems holds items
  | object fields => allFields holds fields
  | j => holds j

def allItems (holds : Json → Bool) : List Json → Bool
  | [] => true
  | x :: rest => x.all holds && allItems holds rest

def allFields (holds : Json → Bool) : List (Text × Json) → Bool
  | [] => true
  | (name, x) :: rest => holds (string name) && x.all holds && allFields holds rest

end

def hasInfinities (j : Json) : Bool :=
  !j.all fun
    | number x => x.isFinite
    | _ => true

def hasHalves (j : Json) : Bool :=
  !j.all fun
    | string t => !t.hasHalf
    | _ => true

end Json

end ChartOverlay
