import Diagnostics.Data
import Diagnostics.Json.Basic
import Diagnostics.Text.Utf8

/-!
# The JSON form of data

What data becomes when it is exchanged: a level or a style becomes its word, a sequence or a set a
list, bytes the text that they spell, a record the object of its fields, and a number that is not
finite becomes null. Ranges, bounds and one-shot sequences have no such form, nor have bytes that
spell no text (`Unformed`).

A field of a record is a `Slot` for values of some type. What such a slot is meant for takes its
form from the slot: a truth value among offsets is a number, and where a label or a byte range is
expected, another record shows only the fields that both have. Anything else takes the form of its
own type, and only so many such values can be inside each other (`nestingLimit`).
-/

namespace Diagnostics

/-- Why data has no JSON form. -/
inductive Unformed where
  | type (name : String)
  | bytes (bs : List UInt8) (fault : Utf8.Fault)
  | tooDeep
  deriving DecidableEq, Repr

/-- What a place in a record is meant for. -/
inductive Slot where
  | anything
  | record
  | severity
  | style
  | text
  | textOrNone
  | offset
  | byteRange
  | label
  | labels
  | texts
  deriving DecidableEq, Repr

/-- How many values outside of their slots can be inside each other. -/
def nestingLimit : Nat := 255

namespace Slot

/-- Whether data takes its form from a slot. -/
def takes : Slot → Data → Bool
  | anything, _ => false
  | record, d => d.isRecord
  | severity, d => (d matches .severity _)
  | style, d => (d matches .style _)
  | text, d => d.asText?.isSome
  | textOrNone, d => d.asText?.isSome || (d matches .none)
  | offset, d => (d matches .int _) || (d matches .bool _)
  | byteRange, d => d.isRecord || d.isMember
  | label, d => d.isRecord || d.isMember
  | labels, d => (d matches .list _)
  | texts, d => (d matches .list _)

/-- How much deeper data is nested by its place; the word of a level or a style is inside it. -/
def cost (s : Slot) (d : Data) : Nat := if s.takes d then 0 else if d.isMember then 2 else 1

/-- How much deeper other data can be nested inside of data, of which so much is left outside. -/
def enter (s : Slot) (room : Nat) (d : Data) : Except Unformed Nat :=
  if s.cost d ≤ room then .ok (room - s.cost d) else .error .tooDeep

/-- The slot of the items of a list. -/
def item : Slot → Slot
  | labels => label
  | texts => text
  | _ => anything

/-- Whether a slot shows nothing of a level or a style but that there is something. -/
def isForRecord (s : Slot) : Bool := s == byteRange || s == label

end Slot

namespace Data

/-- The form of bytes. -/
def formOfBytes (bs : List UInt8) : Except Unformed Json :=
  match Utf8.decode bs with
  | .ok s => .ok (.text s)
  | .error fault => .error (.bytes bs fault)

/-- The form of the word of a level or a style. -/
def formOfWord (s : Slot) (word : String) : Json := if s.isForRecord then .object [] else .text word

mutual

/-- The form of data in a slot. -/
def formIn (s : Slot) (room : Nat) (d : Data) : Except Unformed Json := do
  let room ← s.enter room d
  match d with
  | none => return .null
  | bool b => return if s = .offset then .int b.toNat else .bool b
  | int n => return .int n
  | real x => return if x.isFinite then .real x else .null
  | text s => return .text s
  | bytes bs => formOfBytes bs
  | buffer bs => formOfBytes bs
  | severity x => return formOfWord s x.word
  | style x => return formOfWord s x.word
  | list items => return .array (← formsIn s.item room items)
  | tuple items => return .array (← formsIn .anything room items)
  | set items => return .array (← formsIn .anything room items)
  | table entries => return .object (← entryForms room entries)
  | byteRange start stop =>
    if s = .label then return .object []
    else
      return .object [("start", ← formIn .offset room start),
        ("end", ← formIn .offset room stop)]
  | label how file region message =>
    if s = .byteRange then return .object []
    else
      return .object [("style", ← formIn .style room how),
        ("file_id", ← formIn .anything room file),
        ("range", ← formIn .byteRange room region),
        ("message", ← formIn .text room message)]
  | diagnostic level code message labels notes =>
    if s = .byteRange then return .object []
    else if s = .label then return .object [("message", ← formIn .text room message)]
    else
      return .object [("severity", ← formIn .severity room level),
        ("code", ← formIn .textOrNone room code), ("message", ← formIn .text room message),
        ("labels", ← formIn .labels room labels), ("notes", ← formIn .texts room notes)]
  | d => .error (.type d.typeName)

/-- The forms of items in order, each in the same slot. -/
def formsIn (s : Slot) (room : Nat) : List Data → Except Unformed (List Json)
  | [] => .ok []
  | d :: ds => do return (← formIn s room d) :: (← formsIn s room ds)

/-- The forms of entries in order. -/
def entryForms (room : Nat) : List (String × Data) → Except Unformed (List (String × Json))
  | [] => .ok []
  | (k, d) :: es => do return (k, ← formIn .anything room d) :: (← entryForms room es)

end

/-- The JSON form of a record. -/
def form (d : Data) : Except Unformed Json := formIn .record nestingLimit d

end Data

end Diagnostics
