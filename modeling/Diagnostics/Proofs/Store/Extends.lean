import Diagnostics.Proofs.Store.WellFormed
import Diagnostics.Validation.Draft

/-!
# Stores that only gain objects

Much of what is done with a store makes objects and leaves those alone that are there: they hold what
they did, they carry what they did and they are written out as they were (`Store.Extends`). Copies,
pairs and whatever is made of drafts come about in this way.
-/

namespace Diagnostics.Store

variable {σ τ ρ : Store} {v w : Value} {vs : List Value} {c c' : Cell} {k l : Loc}

/-- Whether a store came from another by making objects, those that were there carry what they did,
and writing takes the calls that it took. -/
structure Extends (σ τ : Store) : Prop where
  grows : σ.Grows τ
  carried?_eq : ∀ k < σ.size, ∀ name, τ.carried? (.object k) name = σ.carried? (.object k) name
  stack_eq : τ.stack = σ.stack

theorem Extends.refl (σ : Store) : σ.Extends σ := ⟨.refl σ, fun _ _ _ => rfl, rfl⟩

/-- A store that extends one that extends another extends that as well. -/
theorem Extends.trans (h : σ.Extends τ) (h' : τ.Extends ρ) : σ.Extends ρ where
  grows := h.grows.trans h'.grows
  carried?_eq k hk name :=
    (h'.carried?_eq k (Nat.lt_of_lt_of_le hk h.grows.size_le) name).trans (h.carried?_eq k hk name)
  stack_eq := h'.stack_eq.trans h.stack_eq

/-- A store is extended by any new object. -/
theorem Extends.alloc (σ : Store) (c : Cell) : σ.Extends (σ.alloc c).2 :=
  ⟨.alloc σ c, fun _ _ _ => rfl, rfl⟩

/-- What is carried by one value is not seen through others. -/
theorem carried?_carryAll (hne : v ≠ w) (source : Value) (name : String) :
    (σ.carryAll source w).carried? v name = σ.carried? v name := by
  have hnone : (((σ.carried.filter (·.1 = source)).map fun e => (w, e.2)).find?
      fun e => decide (e.1 = v) && decide (e.2.1 = name)) = none := by
    rw [List.find?_eq_none]
    intro e he
    obtain ⟨e', -, rfl⟩ := List.mem_map.1 he
    simp [Ne.symm hne]
  simp only [carried?, carryAll, List.find?_append, hnone, Option.none_or]

/-- What a value carries stays the same when another one comes to carry something. -/
theorem carried?_carry (hne : v ≠ w) (name other : String) (u : Value) :
    (σ.carry w other u).carried? v name = σ.carried? v name := by
  simp [carried?, carry, Ne.symm hne]

/-- A copy carries what it is copied from, and is new. -/
theorem Extends.copy (σ : Store) (source : Value) (c : Cell) :
    σ.Extends ((σ.alloc c).2.carryAll source (.object σ.size)) := by
  refine ⟨.alloc σ c, fun k hk name => carried?_carryAll (fun heq => ?_) source name, rfl⟩
  exact Nat.ne_of_lt hk (Value.object.inj heq)

/-- A store is extended by the pairs of a record. -/
theorem Extends.pairs (σ : Store) (fields : List (String × Value)) :
    σ.Extends (σ.pairs fields).2 := by
  induction fields generalizing σ with
  | nil => exact .refl σ
  | cons field fields ih => exact (Extends.alloc σ _).trans (ih _)

/-- Giving elements makes new objects at most. -/
theorem Extends.of_elements? (h : σ.elements? v = some (vs, τ)) : σ.Extends τ := by
  rw [elements?.eq_def] at h
  split at h
  · cases h
    exact .refl σ
  · cases h
    exact .refl σ
  · split at h
    · cases h
    · split at h
      · cases h
        exact .refl σ
      · next fields _ _ =>
        have hpairs := Extends.pairs σ fields
        rwa [Option.some.inj h] at hpairs
      · cases h
  · cases h

/-! ## What is made of drafts -/

variable {α : Type}

/-- Building a draft extends a store: a record that exists is taken as it is. -/
theorem build_extends {make : Store → α → Value × Store} (hmake : ∀ a, σ.Extends (make σ a).2)
    (d : Draft α) : σ.Extends (d.build make σ).2 := by
  cases d with
  | existing l => exact .refl σ
  | fresh a => exact hmake a

/-- Making a label makes its range as well, if that is new. -/
theorem newLabel_extends (σ : Store) (d : LabelDraft) : σ.Extends (σ.newLabel d).2 :=
  (build_extends (fun _ => .alloc σ _) d.range).trans (.alloc _ _)

/-- Building drafts in a row extends a store, whatever is built. -/
theorem buildAll_extends {make : Store → α → Value × Store}
    (hmake : ∀ (σ : Store) a, σ.Extends (make σ a).2) (σ : Store) (ds : List (Draft α)) :
    σ.Extends (σ.buildAll make ds).2 := by
  induction ds generalizing σ with
  | nil => exact .refl σ
  | cons d ds ih => exact (build_extends (hmake σ) d).trans (ih _)

/-- Making a diagnostic makes its labels, if they are new, and its two lists. -/
theorem newDiagnostic_extends (σ : Store) (d : DiagnosticDraft) :
    σ.Extends (σ.newDiagnostic d).2 :=
  (buildAll_extends newLabel_extends σ d.labels).trans
    ((Extends.alloc _ _).trans ((Extends.alloc _ _).trans (.alloc _ _)))

end Diagnostics.Store
