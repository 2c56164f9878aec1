/-!
# How a label marks its region

A label either marks the cause of a diagnostic or gives context for it. The cause outranks the
context.
-/

namespace Diagnostics

/-- Whether a label marks the primary cause or supporting context. -/
inductive LabelStyle where
  | primary
  | secondary
  deriving DecidableEq, Repr, Inhabited

namespace LabelStyle

/-- Both styles, in order of declaration. -/
def all : List LabelStyle := [primary, secondary]

/-- The weight of a style: a primary label counts for more than a secondary one. -/
def rank : LabelStyle → Nat
  | primary => 1
  | secondary => 0

/-- The word that stands for a style in data. -/
def word : LabelStyle → String
  | primary => "primary"
  | secondary => "secondary"

/-- The name of a style. -/
def name : LabelStyle → String
  | primary => "PRIMARY"
  | secondary => "SECONDARY"

/-- The style that a word stands for; no other spelling is read. -/
def ofWord? (w : String) : Option LabelStyle := all.find? (·.word == w)

theorem mem_all (s : LabelStyle) : s ∈ all := by cases s <;> decide

theorem rank_injective {s t : LabelStyle} (h : s.rank = t.rank) : s = t := by
  cases s <;> cases t <;> simp_all [rank]

@[simp] theorem ofWord?_word (s : LabelStyle) : ofWord? s.word = some s := by cases s <;> decide

theorem word_of_ofWord? {w : String} {s : LabelStyle} (h : ofWord? w = some s) : s.word = w := by
  simpa using List.find?_some h

end LabelStyle

end Diagnostics
