import Diagnostics.Proofs.Builder.OneByOne

/-!
# Stores that differ in what is used up

Of two stores that differ only in what their one-shot sequences have yet to give (`Store.Akin`), no
value shows anything else (`Akin.view_eq`). They stay akin when the same objects are made in both.
-/

namespace Diagnostics.Store

variable {σ τ ρ : Store} {v w : Value}

/-- Whether two stores are the same but for what one-shot sequences have yet to give. -/
structure Akin (σ τ : Store) : Prop where
  size : σ.size = τ.size
  cells : ∀ l, σ.get? l = τ.get? l ∨
    ∃ us vs, σ.get? l = some (.iterator us) ∧ τ.get? l = some (.iterator vs)

namespace Akin

theorem refl (σ : Store) : σ.Akin σ := ⟨rfl, fun _ => .inl rfl⟩

/-- Which of two one-shot sequences is called the first makes no difference. -/
theorem symm (h : σ.Akin τ) : τ.Akin σ := by
  refine ⟨h.size.symm, fun l => ?_⟩
  rcases h.cells l with heq | ⟨us, vs, hus, hvs⟩
  · exact .inl heq.symm
  · exact .inr ⟨vs, us, hvs, hus⟩

/-- Stores are akin through a third one. -/
theorem trans (h : σ.Akin τ) (h' : τ.Akin ρ) : σ.Akin ρ := by
  refine ⟨h.size.trans h'.size, fun l => ?_⟩
  rcases h.cells l with heq | ⟨us, vs, hus, hvs⟩
  · rw [heq]
    exact h'.cells l
  · rcases h'.cells l with heq | ⟨_, ws, -, hws⟩
    · exact .inr ⟨us, vs, hus, heq ▸ hvs⟩
    · exact .inr ⟨us, ws, hus, hws⟩

/-- To use up a one-shot sequence changes nothing else. -/
theorem leave (σ : Store) (v : Value) (us : List Value) : σ.Akin (σ.leave v us) := by
  by_cases hv : ∃ before, σ.cell? v = some (.iterator before)
  · obtain ⟨before, hbefore⟩ := hv
    obtain ⟨l, rfl, hl⟩ := exists_of_cell? hbefore
    rw [leave_iterator hl]
    refine ⟨(size_update σ l _).symm, fun k => ?_⟩
    by_cases hk : l = k
    · subst hk
      exact .inr ⟨before, us, hl, get?_update_self σ _ (lt_size_of_get? hl)⟩
    · exact .inl (get?_update_ne σ _ hk).symm
  · rw [leave_other fun before h => hv ⟨before, h⟩]
    exact refl σ

/-- A value stands for the same cell in akin stores, or for a one-shot sequence in both. -/
theorem cell? (h : σ.Akin τ) (v : Value) : σ.cell? v = τ.cell? v ∨
    ∃ us vs, σ.cell? v = some (.iterator us) ∧ τ.cell? v = some (.iterator vs) := by
  cases v with
  | object l => exact h.cells l
  | _ => exact .inl rfl

/-- The same object is new in both stores. -/
theorem alloc (h : σ.Akin τ) (c : Cell) : (σ.alloc c).2.Akin (τ.alloc c).2 := by
  refine ⟨by rw [size_alloc, size_alloc, h.size], fun l => ?_⟩
  by_cases hl : l = σ.size
  · rw [hl, get?_alloc_self, h.size, get?_alloc_self]
    exact .inl rfl
  · rw [get?_alloc_of_ne σ c hl, get?_alloc_of_ne τ c (h.size ▸ hl)]
    exact h.cells l

/-- A new object is at the same place in both. -/
theorem new (h : σ.Akin τ) (c : Cell) :
    (σ.new c).1 = (τ.new c).1 ∧ (σ.new c).2.Akin (τ.new c).2 :=
  ⟨congrArg Value.object h.size, h.alloc c⟩

/-- The same pairs are made in both stores. -/
theorem pairs (h : σ.Akin τ) (fields : List (String × Value)) :
    (σ.pairs fields).1 = (τ.pairs fields).1 ∧ (σ.pairs fields).2.Akin (τ.pairs fields).2 := by
  induction fields generalizing σ τ with
  | nil => exact ⟨rfl, h⟩
  | cons field fields ih =>
    obtain ⟨name, v⟩ := field
    obtain ⟨hpair, hnew⟩ := h.new (.tuple [.text name, v])
    obtain ⟨hrest, hpairs⟩ := ih hnew
    exact ⟨congrArg₂ List.cons hpair hrest, hpairs⟩

/-- The same values are given one by one. -/
theorem elements? (h : σ.Akin τ) (hv : σ.cell? v = τ.cell? v) :
    (σ.elements? v = none ∧ τ.elements? v = none) ∨
      ∃ vs σ' τ', σ.elements? v = some (vs, σ') ∧ τ.elements? v = some (vs, τ') ∧ σ'.Akin τ' := by
  cases v with
  | object l =>
    rw [Store.cell?, Store.cell?] at hv
    simp only [Store.elements?, Value.asText?, hv]
    cases τ.get? l with
    | none => exact .inl ⟨rfl, rfl⟩
    | some c =>
      dsimp only
      cases c.items? with
      | some items => exact .inr ⟨items, σ, τ, rfl, rfl, h⟩
      | none =>
        cases c.fields? with
        | none => exact .inl ⟨rfl, rfl⟩
        | some fields =>
          obtain ⟨hpairs, hakin⟩ := h.pairs fields
          refine .inr ⟨_, _, _, rfl, ?_, hakin⟩
          dsimp only
          rw [hpairs]
  | text s => exact .inr ⟨_, σ, τ, rfl, rfl, h⟩
  | bytes bs => exact .inr ⟨_, σ, τ, rfl, rfl, h⟩
  | severity s => exact .inr ⟨_, σ, τ, rfl, rfl, h⟩
  | style s => exact .inr ⟨_, σ, τ, rfl, rfl, h⟩
  | none => exact .inl ⟨rfl, rfl⟩
  | bool b => exact .inl ⟨rfl, rfl⟩
  | int n => exact .inl ⟨rfl, rfl⟩
  | real x => exact .inl ⟨rfl, rfl⟩

/-- To any depth a value shows the same in akin stores. -/
theorem unfold_eq (h : σ.Akin τ) (depth : Nat) : σ.unfold depth = τ.unfold depth := by
  induction depth with
  | zero =>
    funext v
    cases v <;> rfl
  | succ depth ih =>
    funext v
    cases v with
    | object l =>
      rcases h.cells l with heq | ⟨us, vs, hus, hvs⟩
      · simp only [unfold, heq, ih]
      · simp only [unfold, hus, hvs]
    | _ => rfl

/-- **Views.** What has yet to be given does not show. -/
theorem view_eq (h : σ.Akin τ) (v : Value) : σ.view v = τ.view v := by
  rw [view, view, h.size, h.unfold_eq]

/-! ## Records -/

/-- A byte range is made in the same place in both stores. -/
theorem newByteRange (h : σ.Akin τ) (r : ByteRange) :
    (σ.newByteRange r).1 = (τ.newByteRange r).1 ∧
      (σ.newByteRange r).2.Akin (τ.newByteRange r).2 :=
  h.new _

/-- A draft is made of the same objects in both. -/
theorem build {α : Type} {make : Store → α → Value × Store}
    (hmake : ∀ {σ τ : Store}, σ.Akin τ → ∀ a, (make σ a).1 = (make τ a).1 ∧
      (make σ a).2.Akin (make τ a).2) (h : σ.Akin τ) (d : Draft α) :
    (d.build make σ).1 = (d.build make τ).1 ∧ (d.build make σ).2.Akin (d.build make τ).2 := by
  cases d with
  | existing l => exact ⟨rfl, h⟩
  | fresh a => exact hmake h a

/-- A label is made in the same place in both stores, with its range. -/
theorem newLabel (h : σ.Akin τ) (d : LabelDraft) :
    (σ.newLabel d).1 = (τ.newLabel d).1 ∧ (σ.newLabel d).2.Akin (τ.newLabel d).2 := by
  obtain ⟨hrange, hakin⟩ := build newByteRange h d.range
  rw [Store.newLabel, Store.newLabel]
  dsimp only
  rw [hrange]
  exact hakin.new _

/-- Drafts are built in the same places in both stores, one after the other. -/
theorem buildAll {α : Type} {make : Store → α → Value × Store}
    (hmake : ∀ {σ τ : Store}, σ.Akin τ → ∀ a, (make σ a).1 = (make τ a).1 ∧
      (make σ a).2.Akin (make τ a).2) (h : σ.Akin τ) (ds : List (Draft α)) :
    (σ.buildAll make ds).1 = (τ.buildAll make ds).1 ∧
      (σ.buildAll make ds).2.Akin (τ.buildAll make ds).2 := by
  induction ds generalizing σ τ with
  | nil => exact ⟨rfl, h⟩
  | cons d ds ih =>
    obtain ⟨hfirst, hakin⟩ := build hmake h d
    obtain ⟨hrest, hakin⟩ := ih hakin
    exact ⟨congrArg₂ List.cons hfirst hrest, hakin⟩

/-- A diagnostic is made in the same place in both stores, with its labels and its lists. -/
theorem newDiagnostic (h : σ.Akin τ) (d : DiagnosticDraft) :
    (σ.newDiagnostic d).1 = (τ.newDiagnostic d).1 ∧
      (σ.newDiagnostic d).2.Akin (τ.newDiagnostic d).2 := by
  obtain ⟨hlabels, hakin⟩ := buildAll newLabel h d.labels
  rw [Store.newDiagnostic, Store.newDiagnostic]
  dsimp only
  rw [hlabels]
  obtain ⟨hlist, hakin⟩ := hakin.new (.list (τ.buildAll Store.newLabel d.labels).1)
  obtain ⟨hnotes, hakin⟩ := hakin.new (.list (d.notes.map .text))
  rw [hlist, hnotes]
  exact hakin.new _

end Akin

end Diagnostics.Store
