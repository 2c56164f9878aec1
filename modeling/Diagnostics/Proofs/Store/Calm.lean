import Diagnostics.Exchange.Reading
import Diagnostics.Proofs.Store.View

/-!
# Stores in which the records stay as they are

Most of what is done with a store only looks at records: it may make other objects, and it may use
up one-shot sequences. `Store.Calm` says so place by place. Then every record and every list is what
it was, and there is no record that was not there before (`Calm.get?_eq`, `Calm.get?_of_record`).
-/

namespace Diagnostics

/-- What may become of one place: it stays as it is, a one-shot sequence there is used, or an object
that is no record is made there. -/
inductive Cell.Calm : Option Cell → Option Cell → Prop where
  | same (c? : Option Cell) : Calm c? c?
  | used (before after : List Value) : Calm (some (.iterator before)) (some (.iterator after))
  | made (c : Cell) (plain : c.fields? = none) : Calm none (some c)

/-- What may become of a place in two steps may become of it in one. -/
theorem Cell.Calm.trans {a b c : Option Cell} (h : Calm a b) (h' : Calm b c) : Calm a c := by
  cases h with
  | same => exact h'
  | used before =>
    cases h' with
    | same => exact .used before _
    | used _ after => exact .used before after
  | made d plain =>
    cases h' with
    | same => exact .made d plain
    | used _ after => exact .made (.iterator after) rfl

namespace Store

variable {σ τ ρ : Store} {l : Loc} {c : Cell} {v : Value}

/-- Whether a store came from another without a change to records. -/
def Calm (σ τ : Store) : Prop := ∀ l, Cell.Calm (σ.get? l) (τ.get? l)

theorem Calm.refl (σ : Store) : σ.Calm σ := fun _ => .same _

theorem Calm.trans (h : σ.Calm τ) (h' : τ.Calm ρ) : σ.Calm ρ := fun l => (h l).trans (h' l)

/-- What is no one-shot sequence stays as it is. -/
theorem Calm.get?_eq (h : σ.Calm τ) (hl : σ.get? l = some c) (hc : ∀ vs, c ≠ .iterator vs) :
    τ.get? l = some c := by
  have hcalm := h l
  rw [hl] at hcalm
  generalize τ.get? l = after at hcalm
  cases hcalm with
  | same => rfl
  | used before => exact absurd rfl (hc before)

/-- No record is new. -/
theorem Calm.get?_of_record (h : σ.Calm τ) (hl : τ.get? l = some c) (hc : c.fields?.isSome) :
    σ.get? l = some c := by
  have hcalm := h l
  rw [hl] at hcalm
  generalize σ.get? l = before at hcalm
  cases hcalm with
  | same => rfl
  | used => cases hc
  | made _ plain =>
    rw [plain] at hc
    cases hc

/-- Only objects have cells. -/
theorem exists_of_cell? (h : σ.cell? v = some c) : ∃ l, v = .object l ∧ σ.get? l = some c := by
  cases v with
  | object l => exact ⟨l, rfl, h⟩
  | _ => cases h

/-- What is no one-shot sequence stays what a value stands for. -/
theorem Calm.cell?_eq (h : σ.Calm τ) (hv : σ.cell? v = some c) (hc : ∀ vs, c ≠ .iterator vs) :
    τ.cell? v = some c := by
  obtain ⟨l, rfl, hl⟩ := exists_of_cell? hv
  exact h.get?_eq hl hc

/-- The next place has no object yet. -/
theorem get?_size (σ : Store) : σ.get? σ.size = none := List.getElem?_eq_none (Nat.le_refl _)

/-- A new object changes no other place. -/
theorem get?_alloc_of_ne (σ : Store) (c : Cell) (h : l ≠ σ.size) :
    (σ.alloc c).2.get? l = σ.get? l := by
  rcases Nat.lt_or_gt_of_ne h with hlt | hgt
  · exact get?_alloc_of_lt σ c hlt
  · have hnone : σ.get? l = none := List.getElem?_eq_none (Nat.le_of_lt hgt)
    rw [hnone]
    refine List.getElem?_eq_none ?_
    have hsize := size_alloc σ c
    rw [size] at hsize
    omega

/-- A new object that is no record changes nothing that was there. -/
theorem Calm.alloc (σ : Store) (hc : c.fields? = none) : σ.Calm (σ.alloc c).2 := by
  intro l
  by_cases hl : l = σ.size
  · rw [hl, get?_size, get?_alloc_self]
    exact .made c hc
  · rw [get?_alloc_of_ne σ c hl]
    exact .same _

theorem Calm.newNan (σ : Store) : σ.Calm σ.newNan.2 := fun _ => .same _

theorem Calm.carryAll (σ : Store) (source target : Value) : σ.Calm (σ.carryAll source target) :=
  fun _ => .same _

/-- An object that is replaced by itself is not replaced. -/
theorem update_eq_self (hl : σ.get? l = some c) : σ.update l c = σ := by
  have hlt : l < σ.cells.length := lt_size_of_get? hl
  have hcell : σ.cells[l] = c := Option.some.inj ((List.getElem?_eq_getElem hlt).symm.trans hl)
  rw [update, ← hcell, List.set_getElem_self]

/-- A one-shot sequence keeps what has not been taken. -/
theorem leave_iterator {before : List Value} (hl : σ.get? l = some (.iterator before))
    (us : List Value) : σ.leave (.object l) us = σ.update l (.iterator us) := by
  simp [leave, cell?, hl]

/-- What is no one-shot sequence cannot be told that something has been taken. -/
theorem leave_other (h : ∀ before, σ.cell? v ≠ some (.iterator before)) (us : List Value) :
    σ.leave v us = σ := by
  rw [leave.eq_def]
  split
  · next l before hl => exact absurd hl (h before)
  · rfl

/-- A list is never used up. -/
theorem leave_list {items : List Value} (hl : σ.get? l = some (.list items))
    (unread : List Value) : σ.leave (.object l) unread = σ := by
  simp [leave, cell?, hl]

/-- Whatever is left of a value, only a one-shot sequence is changed. -/
theorem Calm.leave (σ : Store) (v : Value) (unread : List Value) : σ.Calm (σ.leave v unread) := by
  rw [Store.leave.eq_def]
  split
  · next l before hl =>
    intro k
    by_cases hk : l = k
    · rw [← hk, get?_update_self σ _ (lt_size_of_get? hl)]
      rw [cell?] at hl
      rw [hl]
      exact .used before unread
    · rw [get?_update_ne σ _ hk]
      exact .same _
  · exact .refl σ

/-- The pairs of a record are new tuples. -/
theorem Calm.pairs (σ : Store) (fields : List (String × Value)) : σ.Calm (σ.pairs fields).2 := by
  induction fields generalizing σ with
  | nil => exact .refl σ
  | cons field fields ih => exact (Calm.alloc σ rfl).trans (ih _)

/-- To give its elements a value makes new pairs at most. -/
theorem Calm.of_elements? {vs : List Value} (h : σ.elements? v = some (vs, τ)) : σ.Calm τ := by
  rw [elements?.eq_def] at h
  split at h
  · cases h
    exact .refl σ
  · cases h
    exact .refl σ
  · next l _ =>
    split at h
    · cases h
    · split at h
      · cases h
        exact .refl σ
      · next fields _ _ =>
        have hpairs := Calm.pairs σ fields
        rwa [Option.some.inj h] at hpairs
      · cases h
  · cases h

end Store

namespace Exchange

open Store in
mutual

/-- What is made of JSON are lists and tables. -/
theorem calm_ofJson (σ : Store) : (j : Json) → σ.Calm (ofJson σ j).2
  | .null => .refl σ
  | .bool _ => .refl σ
  | .int _ => .refl σ
  | .real (.nan _) => .newNan σ
  | .real (.infinite _) => .refl σ
  | .real (.finite ..) => .refl σ
  | .text _ => .refl σ
  | .array items => (calm_ofJsons σ items).trans (.alloc _ rfl)
  | .object entries => (calm_ofEntries σ entries).trans (.alloc _ rfl)

/-- Making the values of items, by induction on them. -/
theorem calm_ofJsons (σ : Store) : (js : List Json) → σ.Calm (ofJsons σ js).2
  | [] => .refl σ
  | j :: js => (calm_ofJson σ j).trans (calm_ofJsons _ js)

/-- Making the values of entries, by induction on them. -/
theorem calm_ofEntries (σ : Store) : (es : List (String × Json)) → σ.Calm (ofEntries σ es).2
  | [] => .refl σ
  | (_, j) :: es => (calm_ofJson σ j).trans (calm_ofEntries _ es)

end

end Exchange

end Diagnostics
