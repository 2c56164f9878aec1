import Diagnostics.Failure

/-!
# Searching a list for the place where a test begins to fail

Where all items pass a test up to some place and none from there on, that place is found without
testing every item: by halving a gap (`between`), or by first going away from the front in steps
that double and then halving the last of them (`leading`). Tests may fail with an error, which ends
the search. On a list of any other kind both still look at the same items, and `leading` gives at
most its length.
-/

namespace Diagnostics.Sorting

variable {α : Type}

/-- A test of an item. -/
abbrev Test (α : Type) := α → Except Failure Bool

/-- A comparison of two items: whether the first is less. -/
abbrev Less (α : Type) := α → α → Except Failure Bool

/-- The end of a list that one begins at. A list that is read from its back is passed turned round,
so that both ends are read alike. -/
inductive Side where
  /-- Begins at the front. -/
  | front
  /-- Begins at the back. -/
  | back
deriving DecidableEq, Repr

/-- The middle of the places from `low` up to `high`; seen from either end it is the same item. -/
def Side.middle (side : Side) (low high : Nat) : Nat :=
  match side with
  | front => low + (high - low) / 2
  | back => low + (high - low - 1) / 2

/-- The place from `low` up to `high` where items begin to fail. -/
def between (side : Side) (passes : Test α) (xs : List α) :
    (fuel low high : Nat) → Except Failure Nat
  | 0, low, _ => .ok low
  | fuel + 1, low, high =>
    if low < high then
      match xs[side.middle low high]? with
      | none => .ok low
      | some x => do
        if ← passes x then between side passes xs fuel (side.middle low high + 1) high
        else between side passes xs fuel low (side.middle low high)
    else
      .ok low

/-- The gap in which items begin to fail, when the item at `last` passes: from behind the last of
the places `2 * last + 1`, `4 * last + 3`, … that passes up to the next of them, or to the end. -/
def gap (passes : Test α) (xs : List α) : (fuel last : Nat) → Except Failure (Nat × Nat)
  | 0, last => .ok (last + 1, xs.length)
  | fuel + 1, last =>
    match xs[2 * last + 1]? with
    | none => .ok (last + 1, xs.length)
    | some x => do
      if ← passes x then gap passes xs fuel (2 * last + 1)
      else return (last + 1, 2 * last + 1)

/-- How many items at the front of a list pass a test. -/
def leading (side : Side) (passes : Test α) : List α → Except Failure Nat
  | [] => .ok 0
  | x :: xs => do
    if ← passes x then
      let (low, high) ← gap passes (x :: xs) xs.length 0
      between side passes (x :: xs) (high - low) low high
    else
      return 0

end Diagnostics.Sorting
