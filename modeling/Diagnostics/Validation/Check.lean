import Diagnostics.Failure

/-!
# Checks

A check of data either finds what was asked for, or lists everything that is wrong, or is aborted by
a failure that is no issue of the data. Checks of several parts are put together with `both` and
`each`: all their issues are kept, in the order of the parts, and the first failure ends everything.
-/

namespace Diagnostics

/-- The outcome of checking data. -/
inductive Check (α : Type) where
  | valid (a : α)
  | invalid (issues : List Issue)
  | aborted (failure : Failure)
  deriving DecidableEq, Repr

namespace Check

variable {α β γ : Type}

/-- One issue with the data as a whole. -/
def refuse (kind : IssueKind) : Check α := invalid [⟨[], kind⟩]

/-- The outcome for what is made of the data. -/
def map (f : α → β) : Check α → Check β
  | valid a => valid (f a)
  | invalid issues => invalid issues
  | aborted failure => aborted failure

/-- The outcome seen from one step further out. -/
def under (step : PathStep) : Check α → Check α
  | invalid issues => invalid (issues.map (Issue.under step))
  | c => c

/-- The outcome for two parts together. -/
def both : Check α → Check β → Check (α × β)
  | aborted failure, _ => aborted failure
  | _, aborted failure => aborted failure
  | invalid issues, invalid more => invalid (issues ++ more)
  | invalid issues, valid _ => invalid issues
  | valid _, invalid issues => invalid issues
  | valid a, valid b => valid (a, b)

/-- The outcome for items together, the first of which has a given index. -/
def each (f : α → Check β) : (index : Nat) → List α → Check (List β)
  | _, [] => valid []
  | i, a :: as => (both ((f a).under (.index i)) (each f (i + 1) as)).map fun p => p.1 :: p.2

/-- Whether a failure ended the check. -/
def isAborted : Check α → Bool
  | aborted _ => true
  | _ => false

/-- The items after the first that ended the check, which nobody looked at. -/
def unread (f : α → Check β) : List α → List α
  | [] => []
  | a :: as => if (f a).isAborted then as else unread f as

/-- The issues that were found. -/
def issues : Check α → List Issue
  | invalid issues => issues
  | _ => []

/-- The result, or the failure with a title over all issues. -/
def toExcept (title : String) : Check α → Except Failure α
  | valid a => .ok a
  | invalid issues => .error (.invalid title issues)
  | aborted failure => .error failure

@[simp] theorem map_valid (f : α → β) (a : α) : (valid a).map f = valid (f a) := rfl

@[simp] theorem map_invalid (f : α → β) (is : List Issue) :
    (invalid is : Check α).map f = invalid is := rfl

@[simp] theorem map_aborted (f : α → β) (e : Failure) :
    (aborted e : Check α).map f = aborted e := rfl

@[simp] theorem both_valid (a : α) (b : β) : both (valid a) (valid b) = valid (a, b) := rfl

@[simp] theorem both_invalid (is js : List Issue) :
    both (invalid is : Check α) (invalid js : Check β) = invalid (is ++ js) := rfl

@[simp] theorem both_aborted (e : Failure) (c : Check β) :
    both (aborted e : Check α) c = aborted e := rfl

@[simp] theorem each_nil (f : α → Check β) (i : Nat) : each f i [] = valid [] := rfl

end Check

end Diagnostics
