import Diagnostics.Data
import Diagnostics.Failure
import Diagnostics.Number.Progression

/-!
# Equality and order of data

Numbers are equal by value whatever their kind, texts, levels and styles are equal when they are
the same word, and collections when their items are. `alike` is equality as collections use it,
where one and the same value is equal to itself even if it is no number; `equal` is equality of two
values on their own.

Order is defined between numbers, between texts, between levels by rank, and item by item between
sequences of one kind. Styles are ordered by rank only where they are compared strictly; otherwise,
and against a text, the words decide. Between all other kinds there is no order.
-/

namespace Diagnostics

/-- A comparison by order. -/
inductive Relation where
  | lt
  | le
  | gt
  | ge
  deriving DecidableEq, Repr

namespace Relation

/-- The sign that a comparison is written with. -/
def symbol : Relation → String
  | lt => "<"
  | le => "<="
  | gt => ">"
  | ge => ">="

/-- Whether a comparison holds of two things in a given order. -/
def holds : Relation → Ordering → Bool
  | lt, o => o == .lt
  | le, o => o != .gt
  | gt, o => o == .gt
  | ge, o => o != .lt

/-- Whether a comparison excludes equality. -/
def isStrict : Relation → Bool
  | lt => true
  | gt => true
  | _ => false

end Relation

namespace Data

/-- Equality of data that is neither a collection nor a record. -/
def alikePlain (a b : Data) : Bool :=
  match a.asNumber?, b.asNumber? with
  | some x, some y => x.order y == some .eq
  | _, _ =>
    match a.asText?, b.asText? with
    | some s, some t => s == t
    | _, _ =>
      match a.asBytes?, b.asBytes? with
      | some bs, some cs => bs == cs
      | _, _ => false

mutual

/-- Equality as collections use it. -/
def alike : Data → Data → Bool
  | none, none => true
  | real (.nan t), real (.nan u) => t == u
  | list xs, list ys => alikeAll xs ys
  | tuple xs, tuple ys => alikeAll xs ys
  | table es, table fs => es.length == fs.length && entriesIn es fs
  | set xs, set ys => xs.length == ys.length && allIn xs ys
  | iterator l, iterator k => l == k
  | range a b c, range x y z => Progression.alike a b c x y z
  | slice a b c, slice x y z => alike a x && alike b y && alike c z
  | byteRange a b, byteRange x y => alike a x && alike b y
  | label a b c d, label w x y z => alike a w && alike b x && alike c y && alike d z
  | diagnostic a b c d e, diagnostic v w x y z =>
    alike a v && alike b w && alike c x && alike d y && alike e z
  | a, b => alikePlain a b

/-- Equality of items in order. -/
def alikeAll : List Data → List Data → Bool
  | [], [] => true
  | x :: xs, y :: ys => alike x y && alikeAll xs ys
  | _, _ => false

/-- Whether all items are among others. -/
def allIn : List Data → List Data → Bool
  | [], _ => true
  | x :: xs, ys => ys.any (alike x) && allIn xs ys

/-- Whether a table has all entries of another. -/
def entriesIn : List (String × Data) → List (String × Data) → Bool
  | [], _ => true
  | (k, v) :: es, fs =>
    (match fs.lookup k with
      | some w => alike v w
      | Option.none => false) && entriesIn es fs

end

/-- Equality of two values on their own. -/
def equal (a b : Data) : Bool :=
  match a with
  | real (.nan _) => false
  | a => alike a b

/-- The failure to compare two values. -/
def incomparable (r : Relation) (a b : Data) : Except Failure Bool :=
  .error (.notComparable r.symbol a.typeName b.typeName)

/-- The order of two lists of bytes. -/
def orderBytes (bs cs : List UInt8) : Ordering :=
  if bs = cs then .eq else if bs < cs then .lt else .gt

/-- The comparison of two texts, each of which may be a level or a style. -/
def relateText (r : Relation) (a b : Data) (s t : String) : Except Failure Bool :=
  match a, b with
  | severity x, severity y => .ok (r.holds (compare x.rank y.rank))
  | style x, style y =>
    .ok (r.holds (if r.isStrict then compare x.rank y.rank else compare s t))
  | severity _, style _ => if r.isStrict then incomparable r a b else .ok (r.holds (compare s t))
  | style _, severity _ => if r.isStrict then incomparable r a b else .ok (r.holds (compare s t))
  | _, _ => .ok (r.holds (compare s t))

/-- The comparison of data that is not a sequence. -/
def relatePlain (r : Relation) (a b : Data) : Except Failure Bool :=
  match a.asNumber?, b.asNumber? with
  | some x, some y => .ok ((x.order y).any r.holds)
  | _, _ =>
    match a.asText?, b.asText? with
    | some s, some t => relateText r a b s t
    | _, _ =>
      match a.asBytes?, b.asBytes? with
      | some bs, some cs => .ok (r.holds (orderBytes bs cs))
      | _, _ => incomparable r a b

/-- The comparison of two sets: whether one is a part of the other. -/
def relateSets (r : Relation) (xs ys : List Data) : Bool :=
  match r with
  | .lt => decide (xs.length < ys.length) && allIn xs ys
  | .le => allIn xs ys
  | .gt => decide (ys.length < xs.length) && allIn ys xs
  | .ge => allIn ys xs

mutual

/-- The comparison of two values. -/
def relate (r : Relation) : Data → Data → Except Failure Bool
  | list xs, list ys => relateAll r xs ys
  | tuple xs, tuple ys => relateAll r xs ys
  | set xs, set ys => .ok (relateSets r xs ys)
  | slice a b c, slice x y z =>
    if !alike a x then relate r a x
    else if !alike b y then relate r b y
    else if !alike c z then relate r c z
    else .ok (r.holds .eq)
  | a, b => relatePlain r a b

/-- The comparison of two sequences: the first items that differ decide, else the lengths. -/
def relateAll (r : Relation) : List Data → List Data → Except Failure Bool
  | x :: xs, y :: ys => if alike x y then relateAll r xs ys else relate r x y
  | [], [] => .ok (r.holds .eq)
  | [], _ :: _ => .ok (r.holds .lt)
  | _ :: _, [] => .ok (r.holds .gt)

end

mutual

/-- The type that keeps data from being an element of a set, if one does: collections that can
change, records, and what holds one of them in a fixed sequence. -/
def unhashable? : Data → Option String
  | list _ => some "list"
  | table _ => some "dict"
  | set _ => some "set"
  | buffer _ => some "bytearray"
  | slice .. => some "slice"
  | byteRange .. => some "ByteRange"
  | label .. => some "Label"
  | diagnostic .. => some "Diagnostic"
  | tuple items => unhashableIn? items
  | _ => Option.none

/-- The first type among items that keeps them from being elements of a set. -/
def unhashableIn? : List Data → Option String
  | [] => Option.none
  | d :: ds => (unhashable? d).or (unhashableIn? ds)

end

theorem relate_severity (r : Relation) (s t : Severity) :
    relate r (severity s) (severity t) = .ok (r.holds (compare s.rank t.rank)) := by
  simp [relate, relatePlain, relateText, asNumber?, asText?]

end Data

end Diagnostics
