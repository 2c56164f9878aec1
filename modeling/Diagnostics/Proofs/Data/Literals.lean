import Diagnostics.Data.Literal

/-!
# Long integers in data

Data cannot be written as a literal if an integer somewhere in it has too many digits
(`Data.HasLong`).
-/

namespace Diagnostics.Data

/-- The data that data holds. -/
def held : Data → List Data
  | list items => items
  | tuple items => items
  | table entries => entries.map (·.2)
  | set items => items
  | range start stop step => [int start, int stop, int step]
  | slice start stop step => [start, stop, step]
  | byteRange start stop => [start, stop]
  | label how file region message => [how, file, region, message]
  | diagnostic level code message labels notes => [level, code, message, labels, notes]
  | _ => []

/-- Whether an integer in data has too many digits to be written out. -/
inductive HasLong : Data → Prop
  | int {n : Int} (long : digitLimit < Digits.count n.natAbs) : HasLong (.int n)
  | held {d e : Data} (held : e ∈ d.held) (long : e.HasLong) : HasLong d

theorem hasLong_int {n : Int} : (int n).HasLong ↔ digitLimit < Digits.count n.natAbs := by
  refine ⟨fun h => ?_, .int⟩
  cases h with
  | int long => exact long
  | held held => cases held

theorem hasLong_iff {d : Data} (h : ∀ n, d ≠ int n) :
    d.HasLong ↔ ∃ e ∈ d.held, e.HasLong := by
  refine ⟨fun hlong => ?_, fun ⟨e, hheld, hlong⟩ => .held hheld hlong⟩
  cases hlong with
  | int => exact absurd rfl (h _)
  | held held long => exact ⟨_, held, long⟩

end Diagnostics.Data
