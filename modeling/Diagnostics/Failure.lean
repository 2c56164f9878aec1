import Diagnostics.Issue
import Diagnostics.Text.Utf8

/-!
# Why an operation fails

Each failure is a cause with what is needed to explain it, and `message` is the explanation.
-/

namespace Diagnostics

/-- The most digits that an integer may have to be written out in text. -/
def digitLimit : Nat := 4300

/-- The cause of a failing operation. -/
inductive Failure where
  /-- No order is defined between two types. -/
  | notComparable (symbol left right : String)
  /-- A value of the type has no items. -/
  | notIterable (type : String)
  /-- A value of the type cannot be an element of a set. -/
  | unhashable (type : String)
  /-- A value of the type has no length. -/
  | noLength (type : String)
  /-- Arithmetic between two types that have none. -/
  | noArithmetic (symbol left right : String)
  /-- A value of the type where an integer is needed. -/
  | notAnInteger (type : String)
  /-- An integer that is no byte. -/
  | notAByte
  /-- A value of the type where several bytes are needed. -/
  | noBytes (type : String)
  /-- An integer beyond all floating-point numbers. -/
  | beyondReals
  /-- A bound of a part that is no integer. -/
  | notAnIndex
  /-- A range whose step is not one. -/
  | unevenRange (literal : String)
  /-- A range without an end. -/
  | openRange (literal : String)
  /-- A sequence that is not a pair of bounds. -/
  | notAPair (count : Nat)
  /-- A value of a type that never is a range. -/
  | notARange (type : String)
  /-- A value of the type has no such attribute. -/
  | noAttribute (type name : String)
  /-- An attribute that is computed and cannot be assigned. -/
  | computedAttribute (type name : String)
  /-- An attribute that is fixed for good. -/
  | fixedAttribute
  /-- A word or a name of a member of an enumeration, which cannot be assigned. -/
  | memberAttribute (name : String)
  /-- A record has no field to assign. -/
  | noField (record name : String)
  /-- A value of the type has no items that can be picked out. -/
  | noItems (type : String)
  /-- A position outside a sequence, which is named if it is not bytes. -/
  | noItem (sequence? : Option String)
  /-- A position that is no key of a table. -/
  | noEntry (position : Nat)
  /-- A key that is not in a table. -/
  | noKey (key : String)
  /-- A value that is no member of an enumeration. -/
  | notAMember (literal enumeration : String)
  /-- A function of a collection that needs an element. -/
  | emptyArgument (function : String)
  /-- An integer with too many digits to be written out. -/
  | integerTooLong
  /-- Data without the shape of a record. -/
  | invalid (title : String) (issues : List Issue)
  /-- An indentation below zero. -/
  | negativeIndent
  /-- An indentation beyond every text. -/
  | oversizedIndent
  /-- An indentation beyond every sequence. -/
  | oversizedRepetition
  /-- A value of a type that has no form in data. -/
  | unwritable (type : String)
  /-- Bytes that are no text, met while writing. -/
  | unreadableBytes (fault : Utf8.Fault)
  /-- Bytes that are no text, met while converting. -/
  | undecodableBytes (bs : List UInt8) (fault : Utf8.Fault)
  /-- Values too deep inside each other, met while writing. -/
  | unwritableDepth
  /-- Values too deep inside each other, met while converting. -/
  | tooDeep
  /-- A value that contains itself. -/
  | circular
  /-- Too many calls inside each other, met while a value was written out. -/
  | tooManyCalls
  /-- A name that nothing is bound to. -/
  | unbound (name : String)
  /-- An operation that goes on for ever. -/
  | unending
  deriving DecidableEq, Repr

/-- The explanation of a fault in bytes. -/
def Utf8.Fault.message : Utf8.Fault → String
  | invalid offset length =>
    "invalid utf-8 sequence of " ++ toString length ++ " bytes from index " ++ toString offset
  | incomplete offset => "incomplete utf-8 byte sequence from index " ++ toString offset

/-- A byte in two hexadecimal digits. -/
def byteDigits (b : UInt8) : String :=
  String.ofList [Nat.digitChar (b.toNat / 16), Nat.digitChar (b.toNat % 16)]

/-- The bytes that a fault is about, as a single byte or as a span. -/
def Utf8.Fault.place (bs : List UInt8) (fault : Utf8.Fault) : String :=
  let first := fault.offset
  let extent := fault.extent bs.length
  if extent = 1 then
    "byte 0x" ++ byteDigits (bs[first]?.getD 0) ++ " in position " ++ toString first
  else
    "bytes in position " ++ toString first ++ "-" ++ toString (first + extent - 1)

/-- The explanation of a failure. -/
def Failure.message : Failure → String
  | notComparable symbol left right =>
    "'" ++ symbol ++ "' not supported between instances of '" ++ left ++ "' and '" ++ right ++ "'"
  | notIterable type => "'" ++ type ++ "' object is not iterable"
  | unhashable type => "unhashable type: '" ++ type ++ "'"
  | noLength type => "object of type '" ++ type ++ "' has no len()"
  | noArithmetic symbol left right =>
    "unsupported operand type(s) for " ++ symbol ++ ": '" ++ left ++ "' and '" ++ right ++ "'"
  | notAnInteger type => "'" ++ type ++ "' object cannot be interpreted as an integer"
  | notAByte => "byte must be in range(0, 256)"
  | noBytes type => "can't extend bytearray with " ++ type
  | beyondReals => "int too large to convert to float"
  | notAnIndex => "slice indices must be integers or None or have an __index__ method"
  | unevenRange literal => "Label ranges must have step 1, got: " ++ literal
  | openRange literal => "Label ranges need an explicit end, got: " ++ literal
  | notAPair count => "Expected a (start, end) pair, got " ++ toString count ++ " item(s)"
  | notARange type => "Cannot convert " ++ type ++ " to a byte range"
  | noAttribute type name => "'" ++ type ++ "' object has no attribute '" ++ name ++ "'"
  | computedAttribute type name =>
    "property '" ++ name ++ "' of '" ++ type ++ "' object has no setter"
  | fixedAttribute => "readonly attribute"
  | memberAttribute name => "<enum 'Enum'> cannot set attribute '" ++ name ++ "'"
  | noField record name => "\"" ++ record ++ "\" object has no field \"" ++ name ++ "\""
  | noItems type => "'" ++ type ++ "' object is not subscriptable"
  | noItem (some sequence) => sequence ++ " index out of range"
  | noItem none => "index out of range"
  | noEntry position => toString position
  | noKey key => "'" ++ key ++ "'"
  | notAMember literal enumeration => literal ++ " is not a valid " ++ enumeration
  | emptyArgument function => function ++ "() arg is an empty sequence"
  | integerTooLong =>
    "Exceeds the limit (" ++ toString digitLimit ++ " digits) for integer string conversion; " ++
      "use sys.set_int_max_str_digits() to increase the limit"
  | invalid title issues => Issue.headline title issues
  | negativeIndent => "can't convert negative int to unsigned"
  | oversizedIndent => "int too big to convert"
  | oversizedRepetition => "cannot fit 'int' into an index-sized integer"
  | unwritable type => "Unable to serialize unknown type: <class '" ++ type ++ "'>"
  | unreadableBytes fault => "Error serializing to JSON: " ++ fault.message
  | undecodableBytes bs fault =>
    "'utf-8' codec can't decode " ++ fault.place bs ++ ": invalid utf-8"
  | unwritableDepth => "Error serializing to JSON: ValueError: Maximum serialization depth exceeded"
  | tooDeep => "Maximum serialization depth exceeded"
  | circular => "maximum recursion depth exceeded"
  | tooManyCalls => "maximum recursion depth exceeded while getting the repr of an object"
  | unbound name => "'" ++ name ++ "'"
  | unending => ""

end Diagnostics
