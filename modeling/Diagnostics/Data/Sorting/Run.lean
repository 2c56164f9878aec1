import Diagnostics.Data.Sorting.Search

/-!
# Runs

A run is a part of a list that is already in order. The run that a list begins with is kept, or
turned round where it falls strictly, so that equal items keep their order (`firstRun`). A run that
is too short is made longer by putting the next items into it one by one, each behind all items
that it is not less than (`nextRun`).
-/

namespace Diagnostics.Sorting

variable {α : Type}

/-- The part of a list that goes on falling strictly, and the rest. `last` comes before it. -/
def falling (less : Less α) (last : α) : List α → Except Failure (List α × List α)
  | [] => .ok ([], [])
  | x :: xs => do
    if ← less x last then
      let (run, rest) ← falling less x xs
      return (x :: run, rest)
    else
      return ([], x :: xs)

/-- The part of a list that goes on without falling, and the rest. `last` comes before it. -/
def rising (less : Less α) (last : α) : List α → Except Failure (List α × List α)
  | [] => .ok ([], [])
  | x :: xs => do
    if ← less x last then
      return ([], x :: xs)
    else
      let (run, rest) ← rising less x xs
      return (x :: run, rest)

/-- The run that a list begins with, in order, and the rest. -/
def firstRun (less : Less α) : List α → Except Failure (List α × List α)
  | [] => .ok ([], [])
  | [x] => .ok ([x], [])
  | x :: y :: ys => do
    if ← less y x then
      let (run, rest) ← falling less y ys
      return ((x :: y :: run).reverse, rest)
    else
      let (run, rest) ← rising less y ys
      return (x :: y :: run, rest)

/-- Puts an item into a run, behind all items that it is not less than. -/
def insert (less : Less α) (x : α) (run : List α) : Except Failure (List α) := do
  let i ← between .front (fun y => return !(← less x y)) run run.length 0 run.length
  return run.take i ++ x :: run.drop i

/-- Puts items into a run, one after another. -/
def insertAll (less : Less α) : (run items : List α) → Except Failure (List α)
  | run, [] => .ok run
  | run, x :: xs => do insertAll less (← insert less x run) xs

/-- The run that a list begins with, made longer to `least` items if there are so many, and the
rest. -/
def nextRun (less : Less α) (least : Nat) (xs : List α) : Except Failure (List α × List α) := do
  let (run, rest) ← firstRun less xs
  let missing := least - run.length
  return (← insertAll less run (rest.take missing), rest.drop missing)

end Diagnostics.Sorting
