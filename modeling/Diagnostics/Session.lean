import Diagnostics.Builder
import Diagnostics.ByteRange.Part
import Diagnostics.Exchange.Reading
import Diagnostics.Session.Operation

/-!
# Sessions

A session performs operations one after another on one store. An operation that succeeds can give
its value a name for later operations; one that fails names nothing, but what it changed before it
failed stays changed, and the session goes on.
-/

namespace Diagnostics

/-- What is reported of an operation. -/
inductive Report where
  | data (d : Data)
  | row (items : List Report)
  | table (entries : List (String × Report))
  | failed (e : Failure)

/-- What an operation that succeeds gives: a report, and the value that can be named. -/
structure Reply where
  report : Report
  value? : Option Value

namespace Reply

/-- The reply with a value that shows itself. -/
def ofValue (v : Value) : Action Reply := do return ⟨.data (← Action.view v), some v⟩

/-- The reply with a new list. -/
def ofList (vs : List Value) : Action Reply := do ofValue (← Action.new (.list vs))

/-- The reply with an object that has been changed and is given back. -/
def ofReceiver (v : Value) : Action Reply := do
  return ⟨.table [("self", .data (.bool true)), ("state", .data (← Action.view v))], some v⟩

/-- The name, the word and the rank of a member of an enumeration. -/
def ofMember (name word : String) (rank : Nat) : Report :=
  .row [.data (.text name), .data (.text word), .data (.int rank)]

/-- The report of one comparison. -/
def ofComparison : Except Failure Bool → Report
  | .ok b => .data (.bool b)
  | .error e => .failed e

/-- The report of all comparisons of two values. -/
def ofComparisons (a b : Data) : Report :=
  let relation (r : Relation) := ofComparison (Data.relate r a b)
  .table [("lt", relation .lt), ("le", relation .le), ("gt", relation .gt), ("ge", relation .ge),
    ("eq", .data (.bool (Data.equal a b))), ("ne", .data (.bool (!Data.equal a b)))]

/-- The report of a field that a record shows. -/
def ofPart (p : Data.Part) : Report :=
  .row (.data (.text p.name) :: .data p.value :: p.default?.toList.map .data)

end Reply

namespace Operation

/-- Values with their data, in order. -/
def viewed (v : Value) : Action (List (Value × Data)) := do
  let vs ← Action.takeAll v
  return vs.zip (← Action.viewAll vs)

/-- A comparison of values through their data. -/
def compared (r : Relation) : Sorting.Less (Value × Data) := fun x y => Data.relate r x.2 y.2

/-- The first of the values that no later one beats. -/
def best (function : String) (r : Relation) (v : Value) : Action Reply := do
  match ← viewed v with
  | [] => throw (.emptyArgument function)
  | x :: xs => do Reply.ofValue (← Action.ofExcept (Sorting.best (compared r) x xs)).1

/-- The member of an enumeration that a value is or that has the value as its word. -/
def member (enumeration : String) (ofWord? : String → Option Value) (v : Value) :
    Action Reply := do
  match v.asText?.bind ofWord? with
  | some s => Reply.ofValue s
  | none =>
    throw (.notAMember (← Action.literalText v) enumeration)

/-- Whether a style counts for more than something else with a rank. -/
def doesOutrank (a b : Value) : Action Reply := do
  match a with
  | .style s =>
    let rank ← Attribute.stored b "rank"
    let isGreater ← Action.ofExcept (Data.relate .gt (.int s.rank) (← Action.view rank))
    Reply.ofValue (.bool isGreater)
  | a => Action.noAttribute a "outranks"

/-- The byte range that a value describes, in all its forms. -/
def describe (v : Value) : Action Reply := do
  let range ← Record.toByteRange v
  match ← Action.cell? range with
  | some (.byteRange r) =>
    let length ← Attribute.length r
    let isEmpty ← Attribute.isEmpty r
    let asRange ← Action.view (← r.asRange)
    let asSlice ← Action.view (← r.asSlice)
    let length ← Action.view length
    return ⟨.table [("range", .data (← Action.view range)), ("length", .data length),
      ("is_empty", .data (.bool isEmpty)), ("as_range", .data asRange),
      ("as_slice", .data asSlice), ("same", .data (.bool (range == v)))], some range⟩
  | _ => throw (.notARange (← Action.typeName v))

/-- The part of bytes that a range covers. -/
def partOf (range data : Value) : Action Reply := do
  let range ← Record.toByteRange range
  match ← Action.cell? range, data, ← Action.cell? data with
  | some (.byteRange r), .bytes bs, _ => Reply.ofValue (.bytes (← r.sliceBytes bs))
  | some (.byteRange r), _, some (.buffer bs) =>
    Reply.ofValue (← Action.new (.buffer (← r.sliceBytes bs)))
  | _, _, _ => throw (.noItems (← Action.typeName data))

/-- A step of building: what is done to a receiver, which is then given back. -/
def step (names : Names) (receiver argument : Literal) (f : Value → Value → Action Unit) :
    Action Reply := do
  let r ← receiver.eval names
  let a ← argument.eval names
  f r a
  Reply.ofReceiver r

/-- What an operation does. -/
def act (names : Names) : Operation → Action Reply
  | severities =>
    return ⟨.row (Severity.all.map fun s => Reply.ofMember s.name s.word s.rank), none⟩
  | styles =>
    return ⟨.row (LabelStyle.all.map fun s => Reply.ofMember s.name s.word s.rank), none⟩
  | severity v => do
    member "Severity" (fun w => (Severity.ofWord? w).map .severity) (← v.eval names)
  | style v => do
    member "LabelStyle" (fun w => (LabelStyle.ofWord? w).map .style) (← v.eval names)
  | compare a b => do
    let a ← a.eval names
    let b ← b.eval names
    return ⟨Reply.ofComparisons (← Action.view a) (← Action.view b), none⟩
  | sort v falling => do
    let xs ← viewed (← v.eval names)
    let less := compared .lt
    let sorted ← Action.ofExcept
      (if falling then Sorting.sortFalling less xs else Sorting.sort less xs)
    Reply.ofList (sorted.map (·.1))
  | greatest v => do best "max" .gt (← v.eval names)
  | least v => do best "min" .lt (← v.eval names)
  | distinct v => do
    let xs ← viewed (← v.eval names)
    if let some type := xs.findSome? (·.2.unhashable?) then throw (.unhashable type)
    let kept := Sorting.distinct (fun x y => Data.alike x.2 y.2) xs
    Reply.ofList ((← Action.ofExcept (Sorting.sort (compared .lt) kept)).map (·.1))
  | outranks a b => do doesOutrank (← a.eval names) (← b.eval names)
  | toByteRange v => do describe (← v.eval names)
  | sliceBytes range data => do partOf (← range.eval names) (← data.eval names)
  | ofData type data => do Reply.ofValue (← Record.ofData type (← data.eval names))
  | label how file range => do
    let how ← how.eval names
    let file ← file.eval names
    Reply.ofValue (← Record.label how file (← range.eval names))
  | diagnostic level => do Reply.ofValue (← Record.diagnostic (← level.eval names))
  | withCode r a => step names r a Builder.withCode
  | withMessage r a => step names r a Builder.withMessage
  | withLabels r a => step names r a Builder.withLabels
  | withLabelsEach r a => step names r a Builder.withLabelsEach
  | withNotes r a => step names r a Builder.withNotes
  | withNotesEach r a => step names r a Builder.withNotesEach
  | withFile r file => do
    let r ← r.eval names
    Reply.ofValue (← Builder.withFile r (← file.eval names))
  | value v => do Reply.ofValue (← v.eval names)
  | same a b => do
    let a ← a.eval names
    let b ← b.eval names
    Reply.ofValue (.bool (a == b))
  | read v name => do Reply.ofValue (← Attribute.read (← v.eval names) name)
  | assign v name w => do
    let v ← v.eval names
    Attribute.assign v name (← w.eval names)
    Reply.ofValue v
  | append v w => do
    let v ← v.eval names
    Attribute.append v (← w.eval names)
    Reply.ofValue v
  | literal v => do Reply.ofValue (.text (← Action.literalText (← v.eval names)))
  | plain v => do Reply.ofValue (.text (← Action.plainText (← v.eval names)))
  | outline v settings => do
    let d ← Action.view (← v.eval names)
    Reply.ofValue (.text (← Action.ofExcept (d.outline settings)))
  | parts v => do
    let d ← Action.view (← v.eval names)
    return ⟨.row ((← Action.ofExcept d.parts).map Reply.ofPart), none⟩
  | toJson config v => do
    let j ← Exchange.toJson config (← v.eval names)
    Reply.ofValue (← Exchange.make j)

end Operation

namespace Transfer

/-- An exchange of what a literal describes, and the reply with its result. -/
def exchange {α : Type} (names : Names) (argument : Literal) (f : Value → Store → Outcome α)
    (reply : α → Action Reply) (σ : Store) : Outcome Reply :=
  match (argument.eval names).perform σ with
  | (.error e, σ) => ⟨.error e, σ, []⟩
  | (.ok v, σ) =>
    let o := f v σ
    match o.result with
    | .error e => ⟨.error e, o.store, o.log⟩
    | .ok a =>
      let (result, σ) := (reply a).perform o.store
      ⟨result, σ, o.log⟩

/-- The reply with a text. -/
def replyText (s : String) : Action Reply := Reply.ofValue (.text s)

/-- What a transfer leads to. -/
def run (names : Names) : Transfer → Store → Outcome Reply
  | ofPlain data => exchange names data Exchange.ofPlain Reply.ofValue
  | dump config v => exchange names v (Exchange.dump config) replyText
  | load text => exchange names text Exchange.load Reply.ofValue
  | dumpAll config v => exchange names v (Exchange.dumpAll config) replyText
  | loadAll text => exchange names text Exchange.loadAll Reply.ofValue

end Transfer

/-- What a request leads to. -/
def Request.run (names : Names) : Request → Store → Outcome Reply
  | operation o => (o.act names).outcome
  | transfer t => t.run names

/-- The objects of a session, and the names of some of them. -/
structure Session where
  store : Store
  names : Names

namespace Session

/-- A session in which nothing has happened. -/
def empty : Session := ⟨.empty, []⟩

/-- The answer to a request: a report or a failure, and what was logged. -/
structure Answer where
  report : Except Failure Report
  log : List LogEntry

/-- The names after a request has given a value. -/
def named (names : Names) : (name? : Option String) → Except Failure Reply → Names
  | some name, .ok ⟨_, some v⟩ => (name, v) :: names
  | _, _ => names

/-- Fulfils a request and names the value that it gives. -/
def step (s : Session) (request : Request) (name? : Option String) : Answer × Session :=
  let o := request.run s.names s.store
  (⟨o.result.map Reply.report, o.log⟩, ⟨o.store, named s.names name? o.result⟩)

/-- Fulfils requests in order. -/
def run (s : Session) : List (Request × Option String) → List Answer × Session
  | [] => ([], s)
  | (request, name?) :: rest =>
    let (answer, s) := s.step request name?
    let (answers, s) := s.run rest
    (answer :: answers, s)

end Session

end Diagnostics
