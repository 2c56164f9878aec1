/-!
# Byte ranges

A byte range is the half-open interval of offsets from `start` up to but without `stop`. Nothing
asks that it starts before it stops: a range that does not is empty.

The main statements say that its three descriptions agree: as many offsets lie in it as its length
says (`length_offsets`), and it is empty when there are none (`isEmpty_iff`).
-/

namespace Diagnostics

/-- A half-open interval of offsets. -/
structure ByteRange where
  start : Nat
  stop : Nat
  deriving DecidableEq, Repr

namespace ByteRange

/-- How many bytes a range covers. -/
def length (r : ByteRange) : Nat := r.stop - r.start

/-- Whether a range covers nothing. -/
def isEmpty (r : ByteRange) : Bool := decide (r.stop ≤ r.start)

/-- The offsets in a range, in order. -/
def offsets (r : ByteRange) : List Nat := List.range' r.start r.length

@[simp] theorem length_offsets (r : ByteRange) : r.offsets.length = r.length := by
  simp [offsets]

theorem isEmpty_iff (r : ByteRange) : r.isEmpty = true ↔ r.length = 0 := by
  simp [isEmpty, length, Nat.sub_eq_zero_iff_le]

end ByteRange

end Diagnostics
