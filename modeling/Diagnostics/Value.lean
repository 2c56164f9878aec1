import Diagnostics.LabelStyle
import Diagnostics.Number.Binary64
import Diagnostics.Severity

/-!
# Values and the objects behind them

A `Value` is either plain (a truth value, a number, a text, …) or stands for an *object*: something
with an identity of its own, which several values can share and which may change. An object lives
in a cell of a store and is named by its location.

Objects are the collections, the intervals written as data, and the three records of this library:
byte ranges, labels and diagnostics. Their fields hold values of any kind; that a field holds what
it should is a property of a store, kept by every operation but a plain assignment.
-/

namespace Diagnostics

/-- A place in a store. -/
abbrev Loc := Nat

/-- A plain value, or the object at a location. -/
inductive Value where
  | none
  | bool (b : Bool)
  | int (n : Int)
  | real (x : Binary64)
  | text (s : String)
  | bytes (bs : List UInt8)
  | severity (s : Severity)
  | style (s : LabelStyle)
  | object (l : Loc)
  deriving DecidableEq, Repr, Inhabited

/-- The fields of a byte range: the half-open interval from `start` to `stop`. -/
structure RangeFields where
  start : Value
  stop : Value
  deriving DecidableEq, Repr

/-- The fields of a label. -/
structure LabelFields where
  style : Value
  fileId : Value
  range : Value
  message : Value
  deriving DecidableEq, Repr

/-- The fields of a diagnostic; its labels and its notes are list objects. -/
structure DiagnosticFields where
  severity : Value
  code : Value
  message : Value
  labels : Value
  notes : Value
  deriving DecidableEq, Repr

/-- What a cell of a store holds. -/
inductive Cell where
  /-- A list, which can grow. -/
  | list (items : List Value)
  /-- A sequence of fixed length. -/
  | tuple (items : List Value)
  /-- A table from texts to values, in the order in which its keys came. -/
  | table (entries : List (String × Value))
  /-- Values without repetition. -/
  | set (items : List Value)
  /-- The values that a one-shot sequence has yet to give. -/
  | iterator (rest : List Value)
  /-- The integers from `start` on in equal steps, up to but without `stop`. -/
  | range (start stop step : Int)
  /-- The bounds of a part of a sequence, each of them any value. -/
  | slice (start stop step : Value)
  /-- Bytes that can change. -/
  | buffer (bs : List UInt8)
  | byteRange (fields : RangeFields)
  | label (fields : LabelFields)
  | diagnostic (fields : DiagnosticFields)
  deriving DecidableEq, Repr

/-- The name of the type of an object. -/
def Cell.typeName : Cell → String
  | list _ => "list"
  | tuple _ => "tuple"
  | table _ => "dict"
  | set _ => "set"
  | iterator _ => "list_iterator"
  | range .. => "range"
  | slice .. => "slice"
  | buffer _ => "bytearray"
  | byteRange _ => "ByteRange"
  | label _ => "Label"
  | diagnostic _ => "Diagnostic"

namespace Value

/-- The text that a value is, when it is a text or a level or a style, which are texts with an
order of their own. -/
def asText? : Value → Option String
  | text s => some s
  | severity s => some s.word
  | style s => some s.word
  | _ => .none

/-- The integer that a value is, when it is an integer or a truth value. -/
def asInt? : Value → Option Int
  | int n => some n
  | bool b => some b.toNat
  | _ => .none

/-- The location behind a value. -/
def loc? : Value → Option Loc
  | object l => some l
  | _ => .none

end Value

end Diagnostics
