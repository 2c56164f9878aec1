import Diagnostics.Attribute
import Diagnostics.Data.Sorting
import Diagnostics.Json.Basic

/-!
# Literals

A literal describes a value: a plain one, a new object, or one that a name of the session leads to,
along attributes and items. Reading a literal makes its objects anew each time, while a reference
gives the very object that it leads to.
-/

namespace Diagnostics

/-- A step from an object to one that it holds. -/
inductive Hop where
  | item (i : Nat)
  | attribute (name : String)
  deriving DecidableEq, Repr

/-- The description of a value. -/
inductive Literal where
  | none
  | bool (b : Bool)
  | int (n : Int)
  | real (x : Binary64)
  | text (s : String)
  | bytes (bs : List UInt8)
  | severity (s : Severity)
  | style (s : LabelStyle)
  | list (items : List Literal)
  | tuple (items : List Literal)
  | table (entries : List (String × Literal))
  | set (items : List Literal)
  | iterator (items : List Literal)
  | range (start stop step : Int)
  | slice (start stop step : Literal)
  | buffer (bs : List UInt8)
  | reference (name : String) (path : List Hop)
  deriving Repr, Inhabited

/-- What the names of a session stand for. -/
abbrev Names := List (String × Value)

namespace Literal

/-- The item of a sequence, if it has one at some place. -/
def found (sequence? : Option String) (item? : Option Value) : Action Value :=
  match item? with
  | some v => return v
  | Option.none => throw (.noItem sequence?)

/-- The character at some place of a text. -/
def characterAt (s : String) (i : Nat) : Option Value :=
  s.toList[i]?.map fun c => .text (String.singleton c)

/-- The byte at some place. -/
def byteAt (bs : List UInt8) (i : Nat) : Option Value := bs[i]?.map fun b => .int b.toNat

/-- The item of a value at some place. The keys of a table are texts, so none of them is a place. -/
def itemAt (v : Value) (i : Nat) : Action Value := do
  match v.asText?, v, ← Action.cell? v with
  | some s, _, _ => found "string" (characterAt s i)
  | _, .bytes bs, _ => found Option.none (byteAt bs i)
  | _, _, some (.list items) => found "list" items[i]?
  | _, _, some (.tuple items) => found "tuple" items[i]?
  | _, _, some (.buffer bs) => found "bytearray" (byteAt bs i)
  | _, _, some (.range start stop step) =>
    found "range object" ((Progression.term? start stop step i).map .int)
  | _, _, some (.table _) => throw (.noEntry i)
  | _, _, _ => throw (.noItems (← Action.typeName v))

/-- The object one step further on. -/
def follow (v : Value) : Hop → Action Value
  | .attribute name => Attribute.read v name
  | .item i => itemAt v i

/-- The object at the end of a path. -/
def followAll (v : Value) : List Hop → Action Value
  | [] => return v
  | hop :: hops => do followAll (← follow v hop) hops

/-- Values without repetition, in order where they have one. -/
def elementsOfSet (vs : List Value) : Action (List Value) := do
  let ds ← Action.viewAll vs
  if let some type := ds.findSome? Data.unhashable? then throw (.unhashable type)
  let kept := Sorting.distinct (fun x y => Data.alike x.2 y.2) (vs.zip ds)
  match Sorting.sort (fun x y => Data.relate .lt x.2 y.2) kept with
  | .ok sorted => return sorted.map (·.1)
  | .error _ => return kept.map (·.1)

mutual

/-- The value that a literal describes. -/
def eval (names : Names) : Literal → Action Value
  | none => return .none
  | bool b => return .bool b
  | int n => return .int n
  | real x => Action.number x
  | text s => return .text s
  | bytes bs => return .bytes bs
  | severity s => return .severity s
  | style s => return .style s
  | list items => do Action.new (.list (← evalAll names items))
  | tuple items => do Action.new (.tuple (← evalAll names items))
  | table entries => do Action.new (.table (Json.table (← evalEntries names entries)))
  | set items => do Action.new (.set (← elementsOfSet (← evalAll names items)))
  | iterator items => do Action.new (.iterator (← evalAll names items))
  | range start stop step => Action.new (.range start stop step)
  | slice start stop step => do
    Action.new (.slice (← eval names start) (← eval names stop) (← eval names step))
  | buffer bs => Action.new (.buffer bs)
  | reference name path =>
    match names.lookup name with
    | some v => followAll v path
    | Option.none => throw (.unbound name)

/-- The values that literals describe. -/
def evalAll (names : Names) : List Literal → Action (List Value)
  | [] => return []
  | l :: ls => do return (← eval names l) :: (← evalAll names ls)

/-- The values that literals describe, under their keys. -/
def evalEntries (names : Names) : List (String × Literal) → Action (List (String × Value))
  | [] => return []
  | (k, l) :: es => do return (k, ← eval names l) :: (← evalEntries names es)

end

end Literal

end Diagnostics
