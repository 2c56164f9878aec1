import Diagnostics.Number.Progression
import Diagnostics.Store

/-!
# What a value gives one by one

A collection gives its items, a table its keys, a range its integers, a text its characters, bytes
the numbers that they are, and a record each field as a pair of its name and its value. What a
one-shot sequence has given it does not give again (`Store.leave`).
-/

namespace Diagnostics

/-- The fields of a record, with their names. -/
def Cell.fields? : Cell → Option (List (String × Value))
  | byteRange r => some [("start", r.start), ("end", r.stop)]
  | label f =>
    some [("style", f.style), ("file_id", f.fileId), ("range", f.range), ("message", f.message)]
  | diagnostic d =>
    some [("severity", d.severity), ("code", d.code), ("message", d.message),
      ("labels", d.labels), ("notes", d.notes)]
  | _ => none

/-- The characters of a text, each as a text. -/
def textElements (s : String) : List Value := s.toList.map fun c => .text c.toString

/-- The numbers that bytes are. -/
def byteElements (bs : List UInt8) : List Value := bs.map fun b => .int b.toNat

/-- The items of a collection that holds values. -/
def Cell.items? : Cell → Option (List Value)
  | list items => some items
  | tuple items => some items
  | set items => some items
  | iterator rest => some rest
  | range start stop step => some ((Progression.terms start stop step).map .int)
  | table entries => some (entries.map fun e => .text e.1)
  | buffer bs => some (byteElements bs)
  | _ => none

namespace Store

/-- New tuples, one for each field. -/
def pairs (σ : Store) : List (String × Value) → List Value × Store
  | [] => ([], σ)
  | (name, v) :: fields =>
    let (pair, σ) := σ.new (.tuple [.text name, v])
    let (rest, σ) := σ.pairs fields
    (pair :: rest, σ)

/-- What a value gives one by one, if it gives anything. -/
def elements? (σ : Store) (v : Value) : Option (List Value × Store) :=
  match v.asText?, v with
  | some s, _ => some (textElements s, σ)
  | none, .bytes bs => some (byteElements bs, σ)
  | none, .object l =>
    match σ.get? l with
    | none => none
    | some c =>
      match c.items?, c.fields? with
      | some items, _ => some (items, σ)
      | none, some fields => some (σ.pairs fields)
      | none, none => none
  | none, _ => none

/-- The store after a value has given all but some of its elements. -/
def leave (σ : Store) (v : Value) (unread : List Value) : Store :=
  match v, σ.cell? v with
  | .object l, some (.iterator _) => σ.update l (.iterator unread)
  | _, _ => σ

end Store

end Diagnostics
