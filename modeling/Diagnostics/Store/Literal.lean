import Diagnostics.Data.Literal
import Diagnostics.Store.Elements

/-!
# The literal form of values

A value is written out where it stands. An object is a frame around its parts (`Cell.frame`), so
`Store.literal` goes from objects to their parts. A collection that comes again inside of itself is
cut short (`Cell.again?`); other objects that hold themselves are followed as long as calls may be
inside each other (`Stack`). Writing fails in two ways: an integer has too many digits, or there are
too many calls.

The plain form (`Store.plain`) is the same but for a text, which stands for itself, for a level or a
style, which is named, and for a record, which shows its fields alone.
-/

namespace Diagnostics

/-- How an object is written: between two texts its parts, each behind a text of its own. -/
structure Frame where
  opening : List Char
  parts : List (List Char × Value)
  closing : List Char

namespace Frame

/-- A text without parts. -/
def bare (text : String) : Frame := ⟨text.toList, [], []⟩

/-- A name in front of parts in parentheses. -/
def call (name : String) (parts : List (List Char × Value)) : Frame :=
  ⟨name.toList ++ ['('], parts, [')']⟩

/-- The record at a location: its name in front of its fields, one of which may be the record. -/
def record (l : Loc) (name : String) (fields : List (String × Value)) : Frame :=
  call name (fields.map fun e => (e.1.toList ++ ['='],
    if e.2 = .object l then .text ("<Recursion on " ++ name ++ ">") else e.2))

/-- A frame with its parts written out. -/
def fill (f : Frame) (texts : List (List Char)) : List Char :=
  f.opening ++ Data.commas texts ++ f.closing

end Frame

/-- How many calls the call for a value has inside of it, the calls for its parts aside. -/
def Value.calls (stack : Stack) : Value → Nat
  | severity _ => stack.member
  | style _ => stack.member
  | _ => 0

namespace Cell

/-- What is written of a collection inside of itself. -/
def again? : Cell → Option (List Char)
  | list _ => some "[...]".toList
  | tuple _ => some "(...)".toList
  | table _ => some "{...}".toList
  | set _ => some "set(...)".toList
  | _ => none

/-- How many calls there are between the one for an object and those for its parts. What a set holds
is written as a list. -/
def between (stack : Stack) : Cell → Nat
  | set _ => 1
  | byteRange _ => stack.record
  | label _ => stack.record
  | diagnostic _ => stack.record
  | _ => 0

/-- The parts that are the items of a collection. -/
def itemParts (items : List Value) : List (List Char × Value) := items.map ([], ·)

/-- How the object at a location is written. -/
def frame (l : Loc) : Cell → Frame
  | list items => ⟨['['], itemParts items, [']']⟩
  | tuple items => ⟨['('], itemParts items, if items.length = 1 then [',', ')'] else [')']⟩
  | table entries => ⟨['{'], entries.map fun e => (Quoted.text e.1 ++ [':', ' '], e.2), ['}']⟩
  | set items => if items.isEmpty then .bare "set()" else ⟨['{'], itemParts items, ['}']⟩
  | iterator _ => .bare "<list_iterator object>"
  | range start stop step =>
    .call "range" (itemParts ((if step = 1 then [start, stop] else [start, stop, step]).map .int))
  | slice start stop step => .call "slice" (itemParts [start, stop, step])
  | buffer bs => ⟨Data.call "bytearray" [Quoted.buffer bs], [], []⟩
  | byteRange r => .record l "ByteRange" ((byteRange r).fields?.getD [])
  | label f => .record l "Label" ((label f).fields?.getD [])
  | diagnostic d => .record l "Diagnostic" ((diagnostic d).fields?.getD [])

end Cell

namespace Store

/-- The literal form of a value that has no parts. -/
def leaf (σ : Store) (v : Value) : Except Failure (List Char) :=
  match σ.unfold 0 v with
  | some d => d.literal
  | none => .ok "<object>".toList

/-- The literal form of a value inside of the objects `opened`, written by the call behind the next
`waiting` ones, where `room` calls may be inside each other. -/
def literal (σ : Store) :
    (room waiting : Nat) → (opened : List Loc) → Value → Except Failure (List Char)
  | 0, _, _, _ => .error .tooManyCalls
  | room + 1, waiting + 1, opened, v => σ.literal room waiting opened v
  | room + 1, 0, opened, v =>
    if room < v.calls σ.stack then .error .tooManyCalls
    else
      match v, σ.cell? v with
      | .object l, some c =>
        match if l ∈ opened then c.again? else none with
        | some text => .ok text
        | none => do
          let texts ← (c.frame l).parts.mapM fun p => do
            return p.1 ++ (← σ.literal room (c.between σ.stack) (l :: opened) p.2)
          return (c.frame l).fill texts
      | v, _ => σ.leaf v

/-- The parts of an object written out, inside of objects and of itself. -/
def partLiterals (σ : Store) (room : Nat) (opened : List Loc) (l : Loc) (c : Cell) :
    Except Failure (List (List Char)) :=
  (c.frame l).parts.mapM fun p => do
    return p.1 ++ (← σ.literal room (c.between σ.stack) (l :: opened) p.2)

/-- The plain form of a value. -/
def plain (σ : Store) (v : Value) : Except Failure (List Char) :=
  match v, σ.cell? v with
  | .text s, _ => .ok s.toList
  | .severity s, _ => .ok ("Severity." ++ s.name).toList
  | .style s, _ => .ok ("LabelStyle." ++ s.name).toList
  | .object l, some c =>
    if c.fields?.isSome then do
      return Data.join [' '] (← σ.partLiterals (σ.stack.room - 1) [] l c)
    else σ.literal σ.stack.room 0 [] (.object l)
  | v, _ => σ.literal σ.stack.room 0 [] v

/-- The literal form as a text. -/
def literalText (σ : Store) (v : Value) : Except Failure String :=
  (σ.literal σ.stack.room 0 [] v).map String.ofList

/-- The plain form as a text. -/
def plainText (σ : Store) (v : Value) : Except Failure String := (σ.plain v).map String.ofList

end Store

end Diagnostics
