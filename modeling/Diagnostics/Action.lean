import Diagnostics.Store.Literal

/-!
# Actions on a store

An action gives a value or fails, and either way leaves a store: what it changed before it failed
stays changed.

What is said about an action is said about its outcome (`Action.perform`). One action after another
is performed on the store that the first leaves, if it gives a value (`perform_bind`).
-/

namespace Diagnostics

/-- What is done with a store. -/
abbrev Action := ExceptT Failure (StateM Store)

namespace Action

/-- The outcome of an action and the store that it leaves. -/
def perform {α : Type} (a : Action α) (σ : Store) : Except Failure α × Store := a.run.run σ

/-- The result of a function that cannot change the store. -/
def ofExcept {α : Type} (r : Except Failure α) : Action α := fun σ => (r, σ)

/-- Makes a new object. -/
def new (c : Cell) : Action Value := fun σ => let (v, σ) := σ.new c; (.ok v, σ)

/-- Makes a copy of an object, which holds and carries the same. -/
def copyOf (v : Value) (c : Cell) : Action Value := fun σ =>
  let (w, σ) := σ.new c
  (.ok w, σ.carryAll v w)

/-- A number, which is told apart from all others when it is no number at all. -/
def number (x : Binary64) : Action Value := fun σ =>
  match x with
  | .nan _ => let (y, σ) := σ.newNan; (.ok (.real y), σ)
  | x => (.ok (.real x), σ)

/-- Replaces what an object holds. -/
def update (l : Loc) (c : Cell) : Action Unit := fun σ => (.ok (), σ.update l c)

/-- Makes a value carry another under a name. -/
def carry (v : Value) (name : String) (w : Value) : Action Unit := fun σ =>
  (.ok (), σ.carry v name w)

/-- The cell that a value stands for. -/
def cell? (v : Value) : Action (Option Cell) := fun σ => (.ok (σ.cell? v), σ)

/-- The name of the type of a value. -/
def typeName (v : Value) : Action String := fun σ => (.ok (σ.typeName v), σ)

/-- The data of a value. -/
def view (v : Value) : Action Data := fun σ =>
  match σ.view v with
  | some d => (.ok d, σ)
  | none => (.error .circular, σ)

/-- The data of values. -/
def viewAll : List Value → Action (List Data)
  | [] => return []
  | v :: vs => do return (← view v) :: (← viewAll vs)

/-- The failure to find an attribute. -/
def noAttribute {α : Type} (v : Value) (name : String) : Action α := do
  throw (.noAttribute (← typeName v) name)

/-- The plain form of a value. -/
def plainText (v : Value) : Action String := fun σ => (σ.plainText v, σ)

/-- The literal form of a value. -/
def literalText (v : Value) : Action String := fun σ => (σ.literalText v, σ)

/-- What a value gives one by one; a one-shot sequence keeps what it has until it is told that
something has been taken. -/
def elements (v : Value) : Action (List Value) := fun σ =>
  match σ.elements? v with
  | some (vs, τ) => (.ok vs, τ)
  | none => (.error (.notIterable (σ.typeName v)), σ)

/-- Tells a value what of its elements is left. -/
def leave (v : Value) (unread : List Value) : Action Unit := fun σ => (.ok (), σ.leave v unread)

/-- All elements of a value, which is then used up if it is a one-shot sequence. -/
def takeAll (v : Value) : Action (List Value) := do
  let vs ← elements v
  leave v []
  return vs

/-- Performs an action on each of the elements of a value, which are taken one at a time. -/
def takeEach {β : Type} (source : Value) (f : Value → Action β) : List Value → Action (List β)
  | [] => return []
  | v :: vs => do
    leave source vs
    return (← f v) :: (← takeEach source f vs)

/-- What an action gives; where it fails for want of an attribute, it is performed once more. -/
def again {α : Type} (a : Action α) : Action α := fun σ =>
  match a.perform σ with
  | (.error (.noAttribute ..), τ) => a.perform τ
  | outcome => outcome

/-! ## Outcomes -/

section Outcomes

variable {α β : Type} (σ : Store)

@[simp] theorem perform_pure (a : α) : (pure a : Action α).perform σ = (.ok a, σ) := rfl

@[simp] theorem perform_throw (e : Failure) :
    (throw e : Action α).perform σ = (.error e, σ) := rfl

theorem perform_bind (a : Action α) (f : α → Action β) :
    (a >>= f).perform σ =
      match a.perform σ with
      | (.ok x, τ) => (f x).perform τ
      | (.error e, τ) => (.error e, τ) := by
  simp only [perform, bind, ExceptT.bind, ExceptT.run, ExceptT.mk, StateT.bind, StateT.run]
  rcases a σ with ⟨_ | _, _⟩ <;> rfl

/-- After an action that gives a value, the next one is performed. -/
theorem perform_bind_of_ok {a : Action α} {f : α → Action β} {x : α} {τ : Store}
    (h : a.perform σ = (.ok x, τ)) : (a >>= f).perform σ = (f x).perform τ := by
  rw [perform_bind, h]

/-- After an action that fails, nothing is performed. -/
theorem perform_bind_of_error {a : Action α} {f : α → Action β} {e : Failure} {τ : Store}
    (h : a.perform σ = (.error e, τ)) : (a >>= f).perform σ = (.error e, τ) := by
  rw [perform_bind, h]

/-- What one action after another gives, the second gives after the first has given something. -/
theorem exists_of_perform_bind {a : Action α} {f : α → Action β} {y : β} {ρ : Store}
    (h : (a >>= f).perform σ = (.ok y, ρ)) :
    ∃ x τ, a.perform σ = (.ok x, τ) ∧ (f x).perform τ = (.ok y, ρ) := by
  rw [perform_bind] at h
  split at h
  · next x τ hx => exact ⟨x, τ, hx, h⟩
  · cases h

@[simp] theorem perform_ofExcept (r : Except Failure α) : (ofExcept r).perform σ = (r, σ) := rfl

@[simp] theorem perform_new (c : Cell) :
    (new c).perform σ = (.ok (.object σ.size), (σ.alloc c).2) := rfl

@[simp] theorem perform_update (l : Loc) (c : Cell) :
    (update l c).perform σ = (.ok (), σ.update l c) := rfl

@[simp] theorem perform_cell? (v : Value) : (cell? v).perform σ = (.ok (σ.cell? v), σ) := rfl

@[simp] theorem perform_typeName (v : Value) :
    (typeName v).perform σ = (.ok (σ.typeName v), σ) := rfl

@[simp] theorem perform_leave (v : Value) (unread : List Value) :
    (leave v unread).perform σ = (.ok (), σ.leave v unread) := rfl

/-- Looking at a value changes nothing. -/
theorem perform_view {v : Value} {d : Data} (h : σ.view v = some d) :
    (view v).perform σ = (.ok d, σ) := by
  simp [perform, view, h, ExceptT.run, StateT.run]

end Outcomes

end Action

end Diagnostics
