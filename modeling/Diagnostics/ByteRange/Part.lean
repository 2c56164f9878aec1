import Diagnostics.Attribute

/-!
# The part of a sequence that a byte range covers

A byte range describes the same part in three ways: by its length, as a range of integers and as the
bounds of a part. Bounds beyond the ends of a sequence are clipped, and bounds below zero count from
its end; those of a valid byte range never are below zero.
-/

namespace Diagnostics

/-- A bound within a sequence of some length. -/
def clip (length : Nat) (bound : Int) : Nat :=
  if bound < 0 then (length + bound).toNat else min bound.toNat length

theorem clip_natCast (length n : Nat) : clip length n = min n length := by
  simp only [clip, Int.toNat_natCast]
  rw [if_neg (by omega)]

/-- The part of a sequence between two bounds. -/
def part {α : Type} (start stop : Int) (xs : List α) : List α :=
  (xs.take (clip xs.length stop)).drop (clip xs.length start)

namespace ByteRange

/-- The part of a sequence that a range covers. -/
def slice {α : Type} (r : ByteRange) (xs : List α) : List α := part r.start r.stop xs

/-- A valid range takes what comes before its end and drops what comes before its start. -/
theorem slice_eq {α : Type} (r : ByteRange) (xs : List α) :
    r.slice xs = (xs.take r.stop).drop r.start := by
  have ht : xs.take (min r.stop xs.length) = xs.take r.stop := by
    rw [List.take_eq_take_iff]; omega
  rw [slice, part, clip_natCast, clip_natCast, ht]
  rcases Nat.le_total r.start xs.length with h | h
  · rw [Nat.min_eq_left h]
  · have hlen : (xs.take r.stop).length ≤ xs.length := by rw [List.length_take]; omega
    rw [Nat.min_eq_right h, List.drop_eq_nil_of_le hlen,
      List.drop_eq_nil_of_le (Nat.le_trans hlen h)]

end ByteRange

/-- The bounds of a part of a sequence, each of which may be left open. There is no step. -/
structure Bounds where
  start : Value
  stop : Value

namespace Bounds

/-- The bounds as an object has them. -/
def cell (b : Bounds) : Cell := .slice b.start b.stop .none

/-- A bound as an index; an open one is at an end. -/
def index (default : Int) (v : Value) : Action Int := do
  match v, v.asInt? with
  | .none, _ => return default
  | _, some n => return n
  | _, none => throw .notAnIndex

/-- The bytes between the bounds. -/
def bytes (b : Bounds) (bs : List UInt8) : Action (List UInt8) := do
  return part (← index 0 b.start) (← index bs.length b.stop) bs

end Bounds

namespace RangeFields

/-- A bound of a range of integers. -/
def integer (v : Value) : Action Int := do
  match v.asInt? with
  | some n => return n
  | none => throw (.notAnInteger (← Action.typeName v))

/-- The integers of a byte range. -/
def asRange (r : RangeFields) : Action Value := do
  Action.new (.range (← integer r.start) (← integer r.stop) 1)

/-- The bounds of the part that a byte range covers. -/
def bounds (r : RangeFields) : Bounds := ⟨r.start, r.stop⟩

/-- An object with these bounds. -/
def asSlice (r : RangeFields) : Action Value := Action.new r.bounds.cell

/-- The part of bytes that a byte range covers: what is between the bounds that `asSlice` gives. The
object for them is not kept. -/
def sliceBytes (r : RangeFields) (bs : List UInt8) : Action (List UInt8) := r.bounds.bytes bs

end RangeFields

end Diagnostics
