import ChartOverlay.History
import ChartOverlay.Text.Basic

/-!
# Problems of input data

Data from outside is checked against the shape a record asks for. A problem says where the data
departs from it and how; all problems of a record are reported, in the order of its fields.
-/

namespace ChartOverlay

/-- A step from a value into one of its parts. -/
inductive Place
  | field (name : Text)
  | item (index : Nat)
  deriving Repr, DecidableEq

def Place.text : Place → String
  | field name => name.shown
  | item index => toString index

inductive Cause
  | missing
  | wholeType
  /-- A text that is no whole number. -/
  | wholeText
  | wholeTooLong
  /-- A number with a fraction where a whole one is asked for. -/
  | fractional
  | infinite
  | numberType
  | numberText
  | flagType
  | flagText
  | textType
  /-- A text that is no row of characters, since half of a pair stands alone in it. -/
  | brokenText
  | listType
  | recordType
  | requestType
  | notAChoice
  | invalidJson
  | disorder (d : Disorder)
  deriving Repr, DecidableEq

namespace Cause

def code : Cause → String
  | missing => "missing"
  | wholeType => "int_type"
  | wholeText => "int_parsing"
  | wholeTooLong => "int_parsing_size"
  | fractional => "int_from_float"
  | infinite => "finite_number"
  | numberType => "float_type"
  | numberText => "float_parsing"
  | flagType => "bool_type"
  | flagText => "bool_parsing"
  | textType => "string_type"
  | brokenText => "string_unicode"
  | listType => "list_type"
  | recordType => "model_type"
  | requestType => "model_attributes_type"
  | notAChoice => "enum"
  | invalidJson => "json_invalid"
  | disorder _ => "value_error"

/-- The code, with the rule that was broken if it has a text of its own. -/
def message : Cause → String
  | disorder d => "value_error: Value error, " ++ d.message
  | c => c.code

end Cause

/-- A problem; `quotable` says whether the value that was found can be written into an answer. -/
structure Problem where
  place : List Place
  cause : Cause
  quotable : Bool := true
  deriving Repr, DecidableEq

namespace Problem

def text (p : Problem) : String := ".".intercalate (p.place.map Place.text) ++ ": " ++ p.cause.message

def within (place : Place) (p : Problem) : Problem := { p with place := place :: p.place }

def summary (problems : List Problem) : String := "; ".intercalate (problems.map text)

end Problem

end ChartOverlay
