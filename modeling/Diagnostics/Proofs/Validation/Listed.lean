import Diagnostics.Proofs.Validation.Refused

/-!
# What a check lists

Unless a failure ends it, a check of several parts lists the issues of each of them in their order,
seen from the step that leads to the part (`Issue.gather`). Where these steps differ, no two issues
have the same path (`Issue.distinct_gather`).

No check of this library is invalid without an issue, and none is ended by a failure that could be
taken for issues (`Check.Proper`).
-/

namespace Diagnostics

variable {α β : Type}

/-! ## Lists of issues -/

namespace Issue

/-- The issues of parts in order, each seen from the step that leads to its part. -/
def gather (parts : List (PathStep × List Issue)) : List Issue :=
  parts.flatMap fun p => p.2.map (Issue.under p.1)

/-- Whether no two issues have the same path. -/
def Distinct (issues : List Issue) : Prop := (issues.map Issue.path).Nodup

@[simp] theorem gather_nil : gather [] = [] := rfl

@[simp] theorem gather_cons (step : PathStep) (issues : List Issue)
    (parts : List (PathStep × List Issue)) :
    gather ((step, issues) :: parts) = issues.map (Issue.under step) ++ gather parts := rfl

/-- Where there is no issue, no two have the same path. -/
theorem distinct_nil : Distinct [] := List.nodup_nil

/-- One issue shares its path with no other. -/
theorem distinct_single (i : Issue) : Distinct [i] := List.nodup_singleton _

/-- Paths that differ still differ behind a common first step. -/
theorem Distinct.under {issues : List Issue} (h : Distinct issues) (step : PathStep) :
    Distinct (issues.map (Issue.under step)) := by
  have hpaths : (issues.map (Issue.under step)).map Issue.path =
      (issues.map Issue.path).map (step :: ·) := by simp [Function.comp_def]
  rw [Distinct, hpaths]
  exact h.map fun _ _ hcons => (List.cons.inj hcons).2

/-- What leads to an issue of several parts starts with the step to one of them. -/
theorem exists_of_mem_gather {parts : List (PathStep × List Issue)} {i : Issue}
    (h : i ∈ gather parts) : ∃ p ∈ parts, ∃ j ∈ p.2, i = j.under p.1 := by
  obtain ⟨p, hp, hi⟩ := List.mem_flatMap.1 h
  obtain ⟨j, hj, rfl⟩ := List.mem_map.1 hi
  exact ⟨p, hp, j, hj, rfl⟩

/-- Parts at different steps have issues at different places. -/
theorem distinct_gather {parts : List (PathStep × List Issue)} (steps : (parts.map (·.1)).Nodup)
    (each : ∀ p ∈ parts, Distinct p.2) : Distinct (gather parts) := by
  induction parts with
  | nil => exact distinct_nil
  | cons p parts ih =>
    obtain ⟨step, issues⟩ := p
    obtain ⟨hstep, steps⟩ := List.nodup_cons.1 steps
    rw [gather_cons, Distinct, List.map_append]
    refine List.Nodup.append ((each _ List.mem_cons_self).under step)
      (ih steps fun p hp => each p (List.mem_cons_of_mem _ hp)) ?_
    -- a common path would start with the steps to two parts
    rw [List.disjoint_left]
    intro path hfirst hrest
    obtain ⟨i, hi, rfl⟩ := List.mem_map.1 hfirst
    obtain ⟨j, -, rfl⟩ := List.mem_map.1 hi
    obtain ⟨k, hk, hpath⟩ := List.mem_map.1 hrest
    obtain ⟨q, hq, m, -, rfl⟩ := exists_of_mem_gather hk
    obtain rfl : q.1 = step := (List.cons.inj hpath).1
    exact hstep (List.mem_map.2 ⟨q, hq, rfl⟩)

end Issue

/-! ## Checks -/

namespace Check

/-- A check finds what was asked for, has an issue, or is ended by a failure that is no list of
issues. -/
inductive Proper : Check α → Prop
  | valid (a : α) : Proper (.valid a)
  | invalid {issues : List Issue} (nonempty : issues ≠ []) : Proper (.invalid issues)
  | aborted {e : Failure} (other : ∀ title issues, e ≠ .invalid title issues) : Proper (.aborted e)

/-- A check of a single value finds it or has one issue with it. -/
def Single (c : Check α) : Prop := (∃ a, c = .valid a) ∨ ∃ kind, c = .refuse kind

/-- A check of a single value is proper. -/
theorem Single.proper {c : Check α} (h : c.Single) : c.Proper := by
  rcases h with ⟨a, rfl⟩ | ⟨kind, rfl⟩
  · exact .valid a
  · exact .invalid (List.cons_ne_nil _ _)

/-- The only issue with a single value shares its path with no other. -/
theorem Single.distinct {c : Check α} (h : c.Single) : Issue.Distinct c.issues := by
  rcases h with ⟨a, rfl⟩ | ⟨kind, rfl⟩
  · exact Issue.distinct_nil
  · exact Issue.distinct_single _

/-- What is made of a single value is found where the value is. -/
theorem Single.map {c : Check α} (h : c.Single) (f : α → β) : (c.map f).Single := by
  rcases h with ⟨a, rfl⟩ | ⟨kind, rfl⟩
  · exact .inl ⟨f a, rfl⟩
  · exact .inr ⟨kind, rfl⟩

/-- A check that decides a condition has one issue at most. -/
theorem Decides.single {c : Check α} {P : α → Prop} (h : c.Decides P) : c.Single := by
  rcases h with ⟨a, ha, -⟩ | ⟨-, hrefuse⟩
  · exact .inl ⟨a, ha⟩
  · exact .inr hrefuse

section Issues

variable {c : Check α} {d : Check β}

@[simp] theorem issues_valid (a : α) : (valid a).issues = [] := rfl

@[simp] theorem issues_refuse (kind : IssueKind) : (refuse kind : Check α).issues = [⟨[], kind⟩] :=
  rfl

@[simp] theorem issues_map (c : Check α) (f : α → β) : (c.map f).issues = c.issues := by
  cases c <;> rfl

@[simp] theorem issues_under (c : Check α) (step : PathStep) :
    (c.under step).issues = c.issues.map (Issue.under step) := by
  cases c <;> rfl

/-- Two checks together are ended by a failure where one of them is. -/
theorem failure?_both_eq_none_iff :
    (c.both d).failure? = none ↔ c.failure? = none ∧ d.failure? = none := by
  rw [failure?_both, Option.or_eq_none_iff]

/-- Two parts have their issues one after the other. -/
theorem issues_both (h : (c.both d).failure? = none) :
    (c.both d).issues = c.issues ++ d.issues := by
  cases c with
  | valid a => cases d <;> rfl
  | invalid is =>
    cases d with
    | valid b => exact (List.append_nil is).symm
    | invalid js => rfl
    | aborted e => cases h
  | aborted e => cases h

/-- Items have their issues one after the other, each below its index. -/
theorem issues_each {f : α → Check β} {as : List α} (h : ∀ a ∈ as, (f a).failure? = none)
    (i : Nat) : (each f i as).issues =
      Issue.gather (as.mapIdx fun k a => (.index (i + k), (f a).issues)) := by
  induction as generalizing i with
  | nil => rfl
  | cons a as ih =>
    obtain ⟨ha, has⟩ := List.forall_mem_cons.1 h
    have hrest : (each f (i + 1) as).failure? = none := by
      rw [failure?_each, List.findSome?_eq_none_iff]
      exact has
    have hboth : (both ((f a).under (.index i)) (each f (i + 1) as)).failure? = none :=
      failure?_both_eq_none_iff.2 ⟨(failure?_under _ _).trans ha, hrest⟩
    rw [each, issues_map, issues_both hboth, ih has, issues_under,
      List.mapIdx_cons, Issue.gather_cons]
    simp only [Nat.add_zero, Nat.add_assoc, Nat.add_comm 1]

end Issues

namespace Proper

variable {c : Check α} {d : Check β}

/-- What is made of what is found changes nothing about the issues. -/
theorem map (h : c.Proper) (f : α → β) : (c.map f).Proper := by
  cases h with
  | valid a => exact .valid (f a)
  | invalid nonempty => exact .invalid nonempty
  | aborted other => exact .aborted other

/-- Issues stay issues behind a step. -/
theorem under (h : c.Proper) (step : PathStep) : (c.under step).Proper := by
  cases h with
  | valid a => exact .valid a
  | invalid nonempty => exact .invalid (mt List.map_eq_nil_iff.1 nonempty)
  | aborted other => exact .aborted other

/-- Two proper checks together are proper: the first failure ends them, and issues are put together.
-/
theorem both (h : c.Proper) (h' : d.Proper) : (c.both d).Proper := by
  cases h with
  | valid a =>
    cases h' with
    | valid b => exact .valid (a, b)
    | invalid nonempty => exact .invalid nonempty
    | aborted other => exact .aborted other
  | invalid nonempty =>
    cases h' with
    | valid b => exact .invalid nonempty
    | invalid => exact .invalid (List.append_ne_nil_of_left_ne_nil nonempty _)
    | aborted other => exact .aborted other
  | aborted other => exact .aborted other

/-- A check of each item is proper if that of every item is, by induction on the items. -/
theorem each {f : α → Check β} {as : List α} (h : ∀ a ∈ as, (f a).Proper) (i : Nat) :
    (Check.each f i as).Proper := by
  induction as generalizing i with
  | nil => exact .valid []
  | cons a as ih =>
    obtain ⟨ha, has⟩ := List.forall_mem_cons.1 h
    exact ((ha.under _).both (ih has (i + 1))).map _

/-- What comes of a check that no failure ends. -/
theorem cases_of_failure? (h : c.Proper) (hnone : c.failure? = none) :
    (c.issues = [] ∧ ∃ a, c = .valid a) ∨ (c.issues ≠ [] ∧ c = .invalid c.issues) := by
  cases h with
  | valid a => exact .inl ⟨rfl, a, rfl⟩
  | invalid nonempty => exact .inr ⟨nonempty, rfl⟩
  | aborted => cases hnone

end Proper

end Check

end Diagnostics
