import Diagnostics.Data.Sorting.Search

/-!
# Merging two runs

Two runs are merged from their fronts or, turned round, from their backs (`Side`). Items are taken
one by one until one run has given some number of items in a row; from then on whole stretches are
looked for (`leading`) until they become short, which takes fewer comparisons when the runs hardly
interleave. That number, the patience, goes down while long stretches are found and up when the
search is given up, and is handed on from one merge to the next.

Whatever the comparison answers, the merged list holds the items of both runs (`Merging.step` only
moves items from the runs to the output), and a left item that equals a right one stays in front of
it.
-/

namespace Diagnostics.Sorting

variable {α : Type}

/-- How the next items of a merged list are found. -/
inductive Pace where
  /-- One by one, the last `left` items having come from the left run, or `right` from the right. -/
  | single (left right : Nat)
  /-- The search for stretches is given up. -/
  | slower
  /-- Next comes a stretch of the left run; `again` if the last stretches were long. -/
  | leapLeft (again : Bool)
  /-- Next comes an item of the right run, after a stretch of the left. -/
  | oneRight (stretch : Nat)
  /-- Next comes a stretch of the right run, after one of the left. -/
  | leapRight (stretch : Nat)
  /-- Next comes an item of the left run, after two stretches of which this is the longer. -/
  | oneLeft (stretch : Nat)
deriving DecidableEq, Repr

/-- Two runs of which a part is merged. -/
structure Merging (α : Type) where
  /-- What is left of the left run. -/
  left : List α
  /-- What is left of the right run. -/
  right : List α
  /-- How the next items are found. -/
  pace : Pace
  /-- How many items in a row must come from one run before stretches are looked for. -/
  patience : Nat

/-- The length from which on a stretch is long. -/
def longStretch : Nat := 7

/-- Whether the left of two items comes next. The left one of two that are equal stands in front, so
it comes first from the front and last from the back. -/
def Side.leftNext (side : Side) (less : Less α) (x y : α) : Except Failure Bool :=
  match side with
  | front => return !(← less y x)
  | back => less y x

/-- What two runs become when there is nothing left to compare: one is empty, or it holds the one
item that is known to come last, of the left run from the front and of the right run from the back.
-/
def Side.settled? : Side → (left right : List α) → Option (List α)
  | _, [], ys => some ys
  | _, xs, [] => some xs
  | front, [x], y :: ys => some (y :: ys ++ [x])
  | back, x :: xs, [y] => some (x :: xs ++ [y])
  | _, _, _ => none

namespace Merging

/-- Takes one item from the run that has the next one. -/
def single (side : Side) (less : Less α) (m : Merging α) (left right : Nat) (x y : α) :
    Except Failure (List α × Merging α) := do
  if ← side.leftNext less x y then
    if m.patience ≤ left + 1 then
      return ([x], { m with left := m.left.tail, pace := .leapLeft false })
    else
      return ([x], { m with left := m.left.tail, pace := .single (left + 1) 0 })
  else
    if m.patience ≤ right + 1 then
      return ([y], { m with right := m.right.tail, pace := .leapLeft false })
    else
      return ([y], { m with right := m.right.tail, pace := .single 0 (right + 1) })

/-- The next items of the merged list, and what is left. The runs begin with `x` and `y`. -/
def step (side : Side) (less : Less α) (m : Merging α) (x y : α) :
    Except Failure (List α × Merging α) :=
  match m.pace with
  | .single left right => m.single side less left right x y
  | .slower => single side less { m with patience := m.patience + 1 } 0 0 x y
  | .leapLeft again => do
    let i ← leading side (side.leftNext less · y) m.left
    let patience := if again then max (m.patience - 1) 1 else m.patience
    return (m.left.take i, { m with left := m.left.drop i, pace := .oneRight i, patience })
  | .oneRight stretch =>
    return ([y], { m with right := m.right.tail, pace := .leapRight stretch })
  | .leapRight stretch => do
    let j ← leading side (fun y => return !(← side.leftNext less x y)) m.right
    return (m.right.take j, { m with right := m.right.drop j, pace := .oneLeft (max stretch j) })
  | .oneLeft stretch =>
    let pace := if longStretch ≤ stretch then Pace.leapLeft true else Pace.slower
    return ([x], { m with left := m.left.tail, pace })

/-- The rest of the merged list, and how patient one is in the end. -/
def run (side : Side) (less : Less α) : (fuel : Nat) → Merging α → Except Failure (List α × Nat)
  | 0, m => .ok (m.left ++ m.right, m.patience)
  | fuel + 1, m =>
    match side.settled? m.left m.right, m.left, m.right with
    | none, x :: _, y :: _ => do
      let (out, next) ← m.step side less x y
      let (rest, patience) ← run side less fuel next
      return (out ++ rest, patience)
    | rest?, xs, ys => .ok (rest?.getD (xs ++ ys), m.patience)

/-- Merges two runs item by item at first. A stretch may be empty, but two items follow two
stretches, so there are at most two steps for an item, and one. -/
def start (side : Side) (less : Less α) (patience : Nat) (left right : List α) :
    Except Failure (List α × Nat) :=
  run side less (2 * (left.length + right.length) + 1) ⟨left, right, .single 0 0, patience⟩

end Merging

/-- Merges two runs of which the right one has the first item and the left one the last. It begins
at the end where the longer run gives the first item. -/
def interleave (less : Less α) (patience : Nat) (left right : List α) :
    Except Failure (List α × Nat) :=
  if left.length ≤ right.length then
    match right with
    | [] => .ok (left, patience)
    | y :: ys => do
      let (zs, patience) ← Merging.start .front less patience left ys
      return (y :: zs, patience)
  else
    match left.reverse with
    | [] => .ok (right, patience)
    | x :: xs => do
      let (zs, patience) ← Merging.start .back less patience xs right.reverse
      return ((x :: zs).reverse, patience)

/-- Merges two runs. What is in order already stays: the items of the left run in front of the first
right one, and those of the right run behind the last left one. -/
def merge (less : Less α) (patience : Nat) (left right : List α) : Except Failure (List α × Nat) :=
  match right with
  | [] => .ok (left, patience)
  | y :: _ => do
    let i ← leading .front (fun x => return !(← less y x)) left
    match (left.drop i).getLast? with
    | none => return (left ++ right, patience)
    | some x =>
      let j ← leading .back (fun y => return !(← less y x)) right.reverse
      let kept := right.length - j
      let (zs, patience) ← interleave less patience (left.drop i) (right.take kept)
      return (left.take i ++ zs ++ right.drop kept, patience)

end Diagnostics.Sorting
