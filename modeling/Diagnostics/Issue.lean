import Diagnostics.Json.Fault

/-!
# Issues of validation

Data that does not have the shape of a record is refused with a list of issues. An issue has a
kind, whose `code` names it for programs and whose `message` explains it, and the path to the place
in the data.
-/

namespace Diagnostics

/-- Where data comes from. The kinds of issues are the same for both, and a few are worded
differently. -/
inductive Source where
  | values
  | json
  deriving DecidableEq, Repr

/-- A step into data: to a field of a record, or to an item of a list. -/
inductive PathStep where
  | field (name : String)
  | index (i : Nat)
  deriving DecidableEq, Repr

/-- What can be wrong with one place in data. -/
inductive IssueKind where
  /-- A field without which there is no record. -/
  | missing
  /-- Neither fields nor a record of the type that is asked for. -/
  | notARecord (source : Source) (record : String)
  /-- Not a collection that can be read as a list. -/
  | notAList (source : Source)
  /-- Not a text. -/
  | notText
  /-- Bytes that spell no text. -/
  | notUnicode
  /-- None of the words that are asked for. -/
  | notAWord (words : List String)
  /-- Nothing that can be read as an integer. -/
  | notAnInteger
  /-- A text that spells no integer. -/
  | unreadableInteger
  /-- A number that is too large to be taken from its text or its floating-point form. -/
  | oversizedInteger
  /-- A number with a fractional part. -/
  | fractional
  /-- An infinity, or no number. -/
  | notFinite
  /-- A number below zero. -/
  | negative
  /-- A text that is no JSON. -/
  | malformedJson (fault : Json.Fault) (position : Json.Position)
  /-- Not even a text that could be JSON. -/
  | notJsonText
  /-- A range that is refused with an explanation which itself cannot be written. -/
  | unexplained (reason : String)
  deriving DecidableEq, Repr

/-- Words in apostrophes, listed with commas and an `or` before the last. -/
def listWords : List String → String
  | [] => ""
  | [w] => "'" ++ w ++ "'"
  | [v, w] => "'" ++ v ++ "' or '" ++ w ++ "'"
  | v :: ws => "'" ++ v ++ "', " ++ listWords ws

namespace IssueKind

/-- The name of a kind for programs. -/
def code : IssueKind → String
  | missing => "missing"
  | notARecord .. => "model_type"
  | notAList _ => "list_type"
  | notText => "string_type"
  | notUnicode => "string_unicode"
  | notAWord _ => "enum"
  | notAnInteger => "int_type"
  | unreadableInteger => "int_parsing"
  | oversizedInteger => "int_parsing_size"
  | fractional => "int_from_float"
  | notFinite => "finite_number"
  | negative => "greater_than_equal"
  | malformedJson .. => "json_invalid"
  | notJsonText => "json_type"
  | unexplained _ => "value_error"

/-- The explanation of a kind. -/
def message : IssueKind → String
  | missing => "Field required"
  | notARecord .values record =>
    "Input should be a valid dictionary or instance of " ++ record
  | notARecord .json _ => "Input should be an object"
  | notAList .values => "Input should be a valid list"
  | notAList .json => "Input should be a valid array"
  | notText => "Input should be a valid string"
  | notUnicode =>
    "Input should be a valid string, unable to parse raw data as a unicode string"
  | notAWord words => "Input should be " ++ listWords words
  | notAnInteger => "Input should be a valid integer"
  | unreadableInteger =>
    "Input should be a valid integer, unable to parse string as an integer"
  | oversizedInteger =>
    "Unable to parse input string as an integer, exceeded maximum size"
  | fractional => "Input should be a valid integer, got a number with a fractional part"
  | notFinite => "Input should be a finite number"
  | negative => "Input should be greater than or equal to 0"
  | malformedJson fault position =>
    "Invalid JSON: " ++ fault.message ++ " at line " ++ toString position.line ++
      " column " ++ toString position.column
  | notJsonText => "JSON input should be string, bytes or bytearray"
  | unexplained reason => "Value error, " ++ reason

end IssueKind

/-- Something wrong at one place in data. -/
structure Issue where
  path : List PathStep
  kind : IssueKind
  deriving DecidableEq, Repr

/-- The same issue seen from one step further out. -/
def Issue.under (step : PathStep) (i : Issue) : Issue := { i with path := step :: i.path }

/-- The headline over a list of issues with a record of some type. -/
def Issue.headline (title : String) (issues : List Issue) : String :=
  toString issues.length ++
    (if issues.length = 1 then " validation error for " else " validation errors for ") ++ title

@[simp] theorem Issue.under_kind (step : PathStep) (i : Issue) : (i.under step).kind = i.kind :=
  rfl

@[simp] theorem Issue.under_path (step : PathStep) (i : Issue) :
    (i.under step).path = step :: i.path := rfl

end Diagnostics
