import Diagnostics.Issue
import Diagnostics.Json.Basic
import Diagnostics.Store
import Mathlib.Data.List.Basic

/-!
# Data with one place written anew

`Store.Written` relates data to the data that is the same but for one place, which holds another
value. What leads to the place is copied and everything else is shared. An entry of a table that is
not there yet is put at its end.
-/

namespace Diagnostics

namespace Json

variable {α : Type} {key other : String} {a : α}

theorem lookup_put_self (key : String) (a : α) (es : List (String × α)) :
    (put key a es).lookup key = some a := by
  induction es with
  | nil => simp [put]
  | cons e es ih =>
    obtain ⟨k, b⟩ := e
    rw [put]
    split
    · next h => simp [h]
    · next h => simp [List.lookup_cons, ih, beq_false_of_ne (Ne.symm h)]

/-- Other entries stay as they are. -/
theorem lookup_put_of_ne (h : other ≠ key) (a : α) (es : List (String × α)) :
    (put key a es).lookup other = es.lookup other := by
  induction es with
  | nil => simp [put, h]
  | cons e es ih =>
    obtain ⟨k, b⟩ := e
    rw [put]
    split
    · next hk => simp [List.lookup_cons, hk, beq_false_of_ne h]
    · simp [List.lookup_cons, ih]

/-- To put in what is there changes nothing. -/
theorem put_of_lookup {es : List (String × α)} (h : es.lookup key = some a) : put key a es = es := by
  induction es with
  | nil => cases h
  | cons e es ih =>
    obtain ⟨k, b⟩ := e
    rw [put]
    rw [List.lookup_cons] at h
    split
    · next hk =>
      subst hk
      rw [beq_self_eq_true] at h
      rw [Option.some.inj h]
    · next hk =>
      rw [beq_false_of_ne (Ne.symm hk)] at h
      rw [ih h]

/-- Of two values under one key the last counts. -/
theorem put_put (key : String) (a b : α) (es : List (String × α)) :
    put key a (put key b es) = put key a es := by
  induction es with
  | nil => simp [put]
  | cons e es ih =>
    obtain ⟨k, c⟩ := e
    by_cases hk : k = key
    · simp [put, hk]
    · simp [put, hk, ih]

/-- A value takes the place of another without regard to other keys. -/
theorem put_comm {b c : α} {es : List (String × α)} (h : other ≠ key)
    (hes : es.lookup key = some c) : put other b (put key a es) = put key a (put other b es) := by
  induction es with
  | nil => cases hes
  | cons e es ih =>
    obtain ⟨k, d⟩ := e
    rw [List.lookup_cons] at hes
    by_cases hk : k = key
    · subst hk
      simp [put, h.symm]
    · rw [beq_false_of_ne (Ne.symm hk)] at hes
      by_cases hk' : k = other
      · simp [put, hk', h]
      · simp [put, hk, hk', ih hes]

end Json

/-- The kinds of cells that hold values in a row. -/
inductive Cell.IsRow : (List Value → Cell) → Prop
  | list : IsRow .list
  | tuple : IsRow .tuple
  | iterator : IsRow .iterator

namespace Store

/-- Whether the second value is the first with another one written at the end of a path. -/
inductive Written (σ : Store) (a : Value) : List PathStep → Value → Value → Prop
  | here (v : Value) : Written σ a [] v a
  | entry {name : String} {v w : Value} {es : List (String × Value)}
    (cell : σ.cell? v = some (.table es))
    (written : σ.cell? w = some (.table (Json.put name a es))) : Written σ a [.field name] v w
  | field {name : String} {path : List PathStep} {v w u x : Value} {es : List (String × Value)}
    (cell : σ.cell? v = some (.table es)) (value : es.lookup name = some u)
    (inner : Written σ a path u x)
    (written : σ.cell? w = some (.table (Json.put name x es))) :
    Written σ a (.field name :: path) v w
  | item {make : List Value → Cell} {i : Nat} {path : List PathStep} {v w u x : Value}
    {items : List Value} (row : Cell.IsRow make) (cell : σ.cell? v = some (make items))
    (item : items[i]? = some u) (inner : Written σ a path u x)
    (written : σ.cell? w = some (make (items.set i x))) : Written σ a (.index i :: path) v w

end Store

end Diagnostics
