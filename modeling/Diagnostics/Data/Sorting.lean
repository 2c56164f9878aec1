import Diagnostics.Data.Order
import Diagnostics.Data.Sorting.Run
import Diagnostics.Data.Sorting.Merge

/-!
# Sorting, and the least and greatest item

Items are sorted by a comparison that may fail, which ends the sorting. A list is cut into runs of
at least some length (`leastRun`), and neighbouring runs are merged; a list of fewer than 64 items is
a single run. Equal items keep their order. Words and levels, or numbers and what is no number, are
compared without being ordered; what becomes of them follows from which pairs are compared.

Which runs are merged first follows from how deep the boundary between two runs lies (`boundary`):
the deeper of two boundaries goes first, which keeps the merged runs about equally long.
-/

namespace Diagnostics.Sorting

variable {α : Type}

/-- The least length of the runs of a list: the whole of a short one, and else between 32 and 64 and
such that their number is a power of two or slightly less. -/
def leastRun (total : Nat) : Nat :=
  let unit := Nat.pow 2 (Nat.log2 total - 5)
  (total + unit - 1) / unit

/-- How often a list must be halved until two places in it lie in different parts; both are given
twice as far from the front as they are. -/
def halvings (total place other : Nat) : (fuel depth : Nat) → Nat
  | 0, depth => depth
  | fuel + 1, depth =>
    let parts := Nat.pow 2 depth
    if parts * place / (2 * total) = parts * other / (2 * total) then
      halvings total place other fuel (depth + 1)
    else
      depth

/-- How deep the boundary between two neighbouring runs lies: how often the list must be halved
until their middles lie in different parts. -/
def boundary (total start left right : Nat) : Nat :=
  halvings total (2 * start + left) (2 * (start + left) + right) total 0

/-- Runs that wait to be merged, the last one first. -/
structure Waiting (α : Type) where
  /-- The last run. -/
  last : List α
  /-- The runs before it, each with the depth of the boundary behind it. -/
  earlier : List (List α × Nat)
  /-- The patience of the next merge. -/
  patience : Nat

/-- Merges the last run with those before it whose boundaries lie deeper than `depth`. -/
def settle (less : Less α) (depth : Nat) :
    (earlier : List (List α × Nat)) → (last : List α) → (patience : Nat) →
      Except Failure (Waiting α)
  | [], last, patience => .ok ⟨last, [], patience⟩
  | (run, d) :: earlier, last, patience =>
    if depth < d then do
      let (merged, patience) ← merge less patience run last
      settle less depth earlier merged patience
    else
      .ok ⟨last, (run, d) :: earlier, patience⟩

/-- Merges all runs, from the last one on; a run goes with the shorter of its two neighbours. -/
def collapse (less : Less α) :
    (earlier : List (List α × Nat)) → (run last : List α) → (patience : Nat) →
      Except Failure (List α)
  | [], run, last, patience => do return (← merge less patience run last).1
  | (first, _) :: earlier, run, last, patience => do
    if first.length < last.length then
      let (merged, patience) ← merge less patience first run
      collapse less earlier merged last patience
    else
      let (merged, patience) ← merge less patience run last
      collapse less earlier first merged patience

/-- All waiting runs as one. -/
def Waiting.finish (less : Less α) (w : Waiting α) : Except Failure (List α) :=
  match w.earlier with
  | [] => .ok w.last
  | (run, _) :: earlier => collapse less earlier run w.last w.patience

/-- Cuts the rest of a list into runs of at least `least` items and merges them with those that
wait. The last of these begins at `start`. -/
def sortRest (less : Less α) (total least : Nat) :
    (fuel start : Nat) → Waiting α → (rest : List α) → Except Failure (List α)
  | 0, _, w, _ => w.finish less
  | _ + 1, _, w, [] => w.finish less
  | fuel + 1, start, w, rest => do
    let (run, rest) ← nextRun less least rest
    let depth := boundary total start w.last.length run.length
    let settled ← settle less depth w.earlier w.last w.patience
    sortRest less total least fuel (start + w.last.length)
      ⟨run, (settled.last, depth) :: settled.earlier, settled.patience⟩ rest

/-- A list in order. -/
def sort (less : Less α) (xs : List α) : Except Failure (List α) := do
  let least := leastRun xs.length
  let (run, rest) ← nextRun less least xs
  sortRest less xs.length least rest.length 0 ⟨run, [], longStretch⟩ rest

/-- A list in falling order; equal items keep their order. -/
def sortFalling (less : Less α) (xs : List α) : Except Failure (List α) := do
  return (← sort less xs.reverse).reverse

/-- The first of the items that no later one beats. -/
def best (beats : Less α) : (first : α) → List α → Except Failure α
  | x, [] => .ok x
  | x, y :: ys => do best beats (if ← beats y x then y else x) ys

/-- Items without those that are the same as an earlier one. -/
def distinct (same : α → α → Bool) (xs : List α) : List α :=
  (xs.foldl (fun kept x => if kept.any (same x) then kept else x :: kept) []).reverse

end Diagnostics.Sorting
