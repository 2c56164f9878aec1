import Diagnostics.Json.Basic
import Mathlib.Data.List.Forall2

/-!
# Values that are the same where keys are looked for

Whoever takes data from JSON looks for some keys in some of its objects, and takes the rest as it
is. A `Shape` says where which keys are looked for. Values are similar in a shape when they differ
in nothing but the order of keys and keys that nobody looks for (`Similar`).
-/

namespace Diagnostics.Json

/-- Where in data which keys are looked for: nowhere in it, in the items of a list, or among the
keys of an object and further in their values. -/
inductive Shape where
  | leaf
  | items (item : Shape)
  | record (known : List String) (field : String → Shape)

/-- Whether values are the same but for the order of keys, and for keys that nobody looks for. -/
def Similar : Shape → Json → Json → Prop
  | .items s, array is, array js => List.Forall₂ (Similar s) is js
  | .record known field, object es, object fs =>
    ∀ name ∈ known, Option.Rel (Similar (field name)) (es.lookup name) (fs.lookup name)
  | _, i, j => i = j

variable {i j : Json} {s : Shape} {known : List String} {field : String → Shape}

theorem Similar.refl (s : Shape) (j : Json) : Similar s j j := by
  induction s generalizing j with
  | leaf => exact Eq.refl j
  | items s ih =>
    cases j with
    | array js => exact List.forall₂_same.2 fun j _ => ih j
    | _ => exact Eq.refl _
  | record known field ih =>
    cases j with
    | object es =>
      intro name _
      cases es.lookup name with
      | none => exact .none
      | some j => exact .some (ih name j)
    | _ => exact Eq.refl _

/-- Similar lists have similar items, and what is no list is the same. -/
theorem Similar.items_cases (h : Similar (.items s) i j) :
    (∃ is js, i = .array is ∧ j = .array js ∧ List.Forall₂ (Similar s) is js) ∨
      (∀ is, i ≠ .array is) ∧ i = j := by
  cases i with
  | array is =>
    cases j with
    | array js => exact .inl ⟨is, js, rfl, rfl, h⟩
    | _ => cases h
  | _ => exact .inr ⟨nofun, h⟩

/-- Similar objects have similar values under the keys that are looked for, and what is no object is
the same. -/
theorem Similar.record_cases (h : Similar (.record known field) i j) :
    (∃ es fs, i = .object es ∧ j = .object fs ∧
        ∀ name ∈ known, Option.Rel (Similar (field name)) (es.lookup name) (fs.lookup name)) ∨
      (∀ es, i ≠ .object es) ∧ i = j := by
  cases i with
  | object es =>
    cases j with
    | object fs => exact .inl ⟨es, fs, rfl, rfl, h⟩
    | _ => cases h
  | _ => exact .inr ⟨nofun, h⟩

end Diagnostics.Json
