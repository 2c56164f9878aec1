import Diagnostics.Action
import Diagnostics.ByteRange
import Diagnostics.Data.Order

/-!
# Attributes

Objects have fields, which can be assigned, and attributes that are computed from them. Assigning a
field checks nothing, so what is computed may fail on what it finds.

The position of a diagnostic is the least start among its labels of the highest style: where there
is a primary label, secondary ones do not count.
-/

namespace Diagnostics.Attribute

/-- The attributes that every record computes about itself. -/
def ofRecords : List String := ["model_extra", "model_fields_set"]

/-- The attributes that are computed from the fields of a record. -/
def computed : Cell → List String
  | .byteRange _ => "length" :: "is_empty" :: ofRecords
  | .label _ => "is_primary" :: ofRecords
  | .diagnostic _ => "position" :: "primary_labels" :: "secondary_labels" :: ofRecords
  | _ => []

/-- The attributes of an object that are fixed for good. -/
def fixed : Cell → List String
  | .range .. => ["start", "stop", "step"]
  | .slice .. => ["start", "stop", "step"]
  | _ => []

/-- An attribute that a value has by its type. -/
def own? (σ : Store) (v : Value) (name : String) : Option Value :=
  match v with
  | .severity s =>
    [("rank", Value.int s.rank), ("value", .text s.word), ("name", .text s.name)].lookup name
  | .style s =>
    [("rank", Value.int s.rank), ("value", .text s.word), ("name", .text s.name)].lookup name
  | v =>
    match σ.cell? v with
    | some (.range start stop step) =>
      [("start", Value.int start), ("stop", .int stop), ("step", .int step)].lookup name
    | some (.slice start stop step) =>
      [("start", start), ("stop", stop), ("step", step)].lookup name
    | some c => c.fields?.bind (·.lookup name)
    | none => none

/-- An attribute that is stored in a value, or that the value carries. -/
def stored? (σ : Store) (v : Value) (name : String) : Option Value :=
  (own? σ v name).or (σ.carried? v name)

/-- The value of an attribute that is stored. -/
def stored (v : Value) (name : String) : Action Value := fun σ =>
  match stored? σ v name with
  | some w => (.ok w, σ)
  | none => (.error (.noAttribute (σ.typeName v) name), σ)

/-- Whether a value counts as true: it is neither zero nor empty. -/
def isTrue (σ : Store) (v : Value) : Bool :=
  match v.asText?, v with
  | some s, _ => !s.isEmpty
  | none, .none => false
  | none, .bool b => b
  | none, .int n => n != 0
  | none, .real x => x.order (.ofInt 0) != some .eq
  | none, .bytes bs => !bs.isEmpty
  | none, v =>
    match σ.cell? v with
    | some (.iterator _) => true
    | some c => (c.items?.map fun items => !items.isEmpty).getD true
    | none => true

/-- A number as a floating-point number, to reckon with. -/
def real? : Value → Option (Except Failure Binary64)
  | .real x => some (.ok x)
  | v => v.asInt?.map fun n => ((Binary64.nearest? n).map .ok).getD (.error .beyondReals)

/-- The items of a set that are in no other set. -/
def setDifference (xs ys : List Value) : Action Value := do
  let others ← Action.viewAll ys
  Action.new (.set (← xs.filterM fun x => do
    let d ← Action.view x
    return !others.any (Data.alike d)))

/-- The difference between two offsets, which can be numbers of any kind, and also sets. -/
def difference (a b : Value) : Action Value := do
  match a.asInt?, b.asInt?, real? a, real? b, ← Action.cell? a, ← Action.cell? b with
  | some x, some y, _, _, _, _ => return .int (x - y)
  | _, _, some x, some y, _, _ => do
    let x ← Action.ofExcept x
    Action.number (x.sub (← Action.ofExcept y))
  | _, _, _, _, some (.set xs), some (.set ys) => setDifference xs ys
  | _, _, _, _, _, _ => throw (.noArithmetic "-" (← Action.typeName a) (← Action.typeName b))

/-- The length of a byte range; one that ends before it starts has none. -/
def length (r : RangeFields) : Action Value := do
  let d ← difference r.stop r.start
  let isBelow ← Action.ofExcept (Data.relate .gt (.int 0) (← Action.view d))
  return if isBelow then .int 0 else d

/-- Whether a byte range covers nothing. -/
def isEmpty (r : RangeFields) : Action Bool := do
  Action.ofExcept (Data.relate .le (← Action.view r.stop) (← Action.view r.start))

/-- The labels of one style among those of a diagnostic, in order. -/
def labelsOf (style : LabelStyle) (source : Value) : Action (List Value) := do
  let labels ← Action.elements source
  let styles ← Action.takeEach source (stored · "style") labels
  return ((labels.zip styles).filter (·.2 == .style style)).map (·.1)

/-- The rank of the style of a label. -/
def styleRank (label : Value) : Action Value := do stored (← stored label "style") "rank"

/-- The highest rank among labels, of which there has to be one. -/
def topRank (source : Value) : Action Int := do
  match (← Action.takeEach source styleRank (← Action.elements source)).filterMap Value.asInt? with
  | [] => throw (.emptyArgument "max")
  | rank :: ranks => return ranks.foldl max rank

/-- The lesser of two starts, of which the first may be missing. -/
def lesser (least? : Option Value) (start : Value) : Action Value := do
  match least? with
  | none => return start
  | some least =>
    let isLess ← Action.ofExcept (Data.relate .lt (← Action.view start) (← Action.view least))
    return if isLess then start else least

/-- The least start among labels of a rank, compared one by one with the least of those before. -/
def leastStart (source : Value) (rank : Int) : (least? : Option Value) → List Value → Action Value
  | none, [] => throw (.emptyArgument "min")
  | some least, [] => return least
  | least?, l :: ls => do
    Action.leave source ls
    if (← styleRank l).asInt? = some rank then
      let start ← stored (← stored l "range") "start"
      leastStart source rank (some (← lesser least? start)) ls
    else
      leastStart source rank least? ls

/-- The position that labels give. They are gone through twice, so a one-shot sequence gives none.
-/
def positionOf (labels : Value) : Action Value := do
  if isTrue (← get) labels then
    let rank ← topRank labels
    leastStart labels rank none (← Action.elements labels)
  else
    return .none

/-- The value of an attribute. -/
def read (v : Value) (name : String) : Action Value := do
  match ← Action.cell? v, name with
  | some (.byteRange r), "length" => length r
  | some (.byteRange r), "is_empty" => return .bool (← isEmpty r)
  | some (.label f), "is_primary" => return .bool (f.style == .style .primary)
  | some (.diagnostic d), "primary_labels" =>
    Action.new (.list (← (labelsOf .primary d.labels).again))
  | some (.diagnostic d), "secondary_labels" =>
    Action.new (.list (← (labelsOf .secondary d.labels).again))
  | some (.diagnostic d), "position" => (positionOf d.labels).again
  | _, _ => stored v name

/-- A record with another value in a field, if it has the field. -/
def assigned? : Cell → (name : String) → Value → Option Cell
  | .byteRange r, "start", w => some (.byteRange { r with start := w })
  | .byteRange r, "end", w => some (.byteRange { r with stop := w })
  | .label f, "style", w => some (.label { f with style := w })
  | .label f, "file_id", w => some (.label { f with fileId := w })
  | .label f, "range", w => some (.label { f with range := w })
  | .label f, "message", w => some (.label { f with message := w })
  | .diagnostic d, "severity", w => some (.diagnostic { d with severity := w })
  | .diagnostic d, "code", w => some (.diagnostic { d with code := w })
  | .diagnostic d, "message", w => some (.diagnostic { d with message := w })
  | .diagnostic d, "labels", w => some (.diagnostic { d with labels := w })
  | .diagnostic d, "notes", w => some (.diagnostic { d with notes := w })
  | _, _, _ => none

/-- Assigns an attribute of an object that is no field. -/
def assignOther (v : Value) (c : Cell) (name : String) (w : Value) : Action Unit := do
  if c.fields?.isSome && name.toList.head? == some '_' then Action.carry v name w
  else if (computed c).contains name then throw (.computedAttribute c.typeName name)
  else if (fixed c).contains name then throw .fixedAttribute
  else if c.fields?.isSome then throw (.noField c.typeName name)
  else throw (.noAttribute c.typeName name)

/-- Assigns an attribute of a level or a style. -/
def assignMember (v : Value) (name : String) (w : Value) : Action Unit := do
  if name = "rank" then throw (.computedAttribute (← Action.typeName v) name)
  else if name = "value" ∨ name = "name" then throw (.memberAttribute name)
  else Action.carry v name w

/-- Assigns an attribute. A record takes fields and hidden attributes, whose names begin with a low
line, and a level or a style takes whatever it does not have already. -/
def assign (v : Value) (name : String) (w : Value) : Action Unit := do
  match v, ← Action.cell? v with
  | .object l, some c =>
    match assigned? c name w with
    | some c => Action.update l c
    | none => assignOther v c name w
  | .severity _, _ => assignMember v name w
  | .style _, _ => assignMember v name w
  | _, _ => Action.noAttribute v name

/-- The byte that a value is. -/
def byteOf (v : Value) : Action UInt8 := do
  match v.asInt? with
  | some n => if 0 ≤ n ∧ n < 256 then return UInt8.ofNat n.toNat else throw .notAByte
  | none => throw (.notAnInteger (← Action.typeName v))

/-- Appends a value to a list, or a byte to bytes that can change. -/
def append (v w : Value) : Action Unit := do
  match v, ← Action.cell? v with
  | .object l, some (.list items) => Action.update l (.list (items ++ [w]))
  | .object l, some (.buffer bs) =>
    let b ← byteOf w
    Action.update l (.buffer (bs ++ [b]))
  | _, _ => Action.noAttribute v "append"

end Diagnostics.Attribute
