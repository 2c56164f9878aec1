/-!
# How serious a diagnostic is

Five levels, from a hint to a defect of the tool itself. A level has a `rank` (its place in the
order of escalation), a `word` (how it is written in data) and a `name` (how it is called). The
order of levels is the order of ranks, never the order of words.
-/

namespace Diagnostics

/-- The level of a diagnostic, from the mildest to the gravest. -/
inductive Severity where
  | help
  | note
  | warning
  | error
  | bug
  deriving DecidableEq, Repr, Inhabited

namespace Severity

/-- All levels, in order of escalation. -/
def all : List Severity := [help, note, warning, error, bug]

/-- The place of a level in the order of escalation, counted from zero. -/
def rank : Severity → Nat
  | help => 0
  | note => 1
  | warning => 2
  | error => 3
  | bug => 4

/-- The word that stands for a level in data. -/
def word : Severity → String
  | help => "help"
  | note => "note"
  | warning => "warning"
  | error => "error"
  | bug => "bug"

/-- The name of a level. -/
def name : Severity → String
  | help => "HELP"
  | note => "NOTE"
  | warning => "WARNING"
  | error => "ERROR"
  | bug => "BUG"

/-- The level that a word stands for; no other spelling is read. -/
def ofWord? (w : String) : Option Severity := all.find? (·.word == w)

theorem mem_all (s : Severity) : s ∈ all := by cases s <;> decide

theorem all_getElem?_rank (s : Severity) : all[s.rank]? = some s := by cases s <;> rfl

theorem rank_injective {s t : Severity} (h : s.rank = t.rank) : s = t := by
  cases s <;> cases t <;> simp_all [rank]

@[simp] theorem ofWord?_word (s : Severity) : ofWord? s.word = some s := by cases s <;> decide

theorem word_of_ofWord? {w : String} {s : Severity} (h : ofWord? w = some s) : s.word = w := by
  simpa using List.find?_some h

end Severity

end Diagnostics
