import Diagnostics.Proofs.Store.Calm
import Mathlib.Data.Fintype.Card

/-!
# What a value leads to

A value leads to an object when that can be had from it step by step, each step going from an object
to a value that its cell holds (`Store.Leads`). Along all values that cells hold these are the
objects that a value *reaches*; without the files of labels, which are not theirs, they are the
objects that it *owns*.

What a value shows depends on nothing but the objects that show with it (`view_of_shown`,
`view_eq_of_shown`). Nor does it depend on how deep one looks: no object that shows at all is deeper
than there are objects (`view_of_unfold`), so one step over views is a view again
(`view_iff_unfolds`).
-/

namespace Diagnostics

/-- The values that are an object's own: all that it holds, but the file of a label is not. -/
def Cell.own : Cell → List Value
  | label f => [f.style, f.range, f.message]
  | c => c.held

theorem Cell.own_subset_held (c : Cell) : c.own ⊆ c.held := by
  intro v hv
  cases c with
  | label f =>
    simp only [own, held, List.mem_cons] at hv ⊢
    tauto
  | _ => exact hv

namespace Store

variable {σ τ ρ : Store} {along : Cell → List Value} {v w : Value} {k m : Loc} {d : Data}

/-- Whether an object can be had from a value, going from cells to values that lie along them. -/
inductive Leads (σ : Store) (along : Cell → List Value) : Value → Loc → Prop where
  | here (l : Loc) : Leads σ along (.object l) l
  | through {l : Loc} {c v k} (cell : σ.get? l = some c) (mem : v ∈ along c)
    (rest : Leads σ along v k) : Leads σ along (.object l) k

/-- Whether an object can be had from a value at all. -/
abbrev Reaches (σ : Store) : Value → Loc → Prop := σ.Leads Cell.held

/-- Whether an object belongs to a value. -/
abbrev Owns (σ : Store) : Value → Loc → Prop := σ.Leads Cell.own

theorem Leads.exists_object (h : σ.Leads along v k) : ∃ l, v = .object l := by
  cases h with
  | here => exact ⟨k, rfl⟩
  | through => exact ⟨_, rfl⟩

theorem Leads.trans (h : σ.Leads along v k) (h' : σ.Leads along (.object k) m) :
    σ.Leads along v m := by
  induction h with
  | here => exact h'
  | through cell mem _ ih => exact .through cell mem (ih h')

/-- What could be had can be had where the cells on the way are the same. -/
theorem Leads.of_same (h : σ.Leads along v k)
    (hsame : ∀ l c, σ.Leads along v l → σ.get? l = some c → τ.get? l = some c) :
    τ.Leads along v k := by
  induction h with
  | here l => exact .here l
  | through cell mem _ ih =>
    refine .through (hsame _ _ (.here _) cell) mem (ih fun l c hl => ?_)
    exact hsame l c (.through cell mem hl)

/-- Growing opens no new ways, where all objects that can be had are there already. -/
theorem Leads.of_grows (h : τ.Leads along v k) (hστ : σ.Grows τ)
    (hall : ∀ k, σ.Leads along v k → k < σ.size) : σ.Leads along v k := by
  induction h with
  | here l => exact .here l
  | @through l c w m cell mem _ ih =>
    have hl : σ.get? l = some c := by
      obtain ⟨c', hc'⟩ : ∃ c', σ.get? l = some c' :=
        ⟨_, List.getElem?_eq_getElem (hall l (.here l))⟩
      rw [hστ.get? hc'] at cell
      rw [hc', cell]
    exact .through hl mem (ih fun k hk => hall k (.through hl mem hk))

/-! ## What shows -/

/-- What unfolding finds it finds wherever the objects that show with it look the same. -/
theorem unfold_of_shown {n : Nat}
    (hshown : ∀ l c, σ.Leads Cell.shown v l → σ.get? l = some c → Cell.Calm (some c) (τ.get? l))
    (hv : σ.unfold n v = some d) : τ.unfold n v = some d := by
  induction n generalizing v d with
  | zero =>
    cases v with
    | object l => cases hv
    | _ => exact hv
  | succ n ih =>
    refine unfold_succ_iff.2 ((unfold_succ_iff.1 hv).along ?_ ?_)
    · rintro l c rfl hl
      have hcalm := hshown l c (.here l) hl
      generalize τ.get? l = after at hcalm
      cases hcalm with
      | same => exact .inl rfl
      | used vs ws => exact .inr ⟨vs, ws, rfl, rfl⟩
    · rintro l c rfl hl w hw e he
      exact ih (fun k x hk => hshown k x (.through hl hw hk)) he

/-- Where all objects of a level show one level less deep, nothing shows that is deeper. -/
theorem unfold_of_gap {n : Nat}
    (hgap : ∀ l, (σ.unfold (n + 1) (.object l)).isSome → (σ.unfold n (.object l)).isSome) {j : Nat}
    (hv : σ.unfold (n + j) v = some d) : σ.unfold n v = some d := by
  induction j generalizing v d with
  | zero => exact hv
  | succ j ih =>
    have hnext : σ.unfold (n + 1) v = some d :=
      unfold_succ_iff.2 ((unfold_succ_iff.1 hv).mono (.refl σ) fun _ _ hw => ih hw)
    cases v with
    | object l =>
      obtain ⟨e, he⟩ := Option.isSome_iff_exists.1 (hgap l (Option.isSome_of_eq_some hnext))
      rw [unfold_mono (.refl σ) (Nat.le_succ n) he] at hnext
      rw [he, hnext]
    | _ => cases n <;> exact hnext

/-- Some level, not deeper than there are objects, has no object that does not show above it. -/
theorem exists_gap (σ : Store) : ∃ n ≤ σ.size,
    ∀ l, (σ.unfold (n + 1) (.object l)).isSome → (σ.unfold n (.object l)).isSome := by
  by_contra hall
  push Not at hall
  -- otherwise every level has an object of its own, which makes more levels than objects
  have level : ∀ n : Fin (σ.size + 1), ∃ l : Fin σ.size,
      (σ.unfold (n + 1) (.object l)).isSome ∧ ¬ (σ.unfold n (.object l)).isSome := by
    intro n
    obtain ⟨l, hsome, hnone⟩ := hall n (Nat.le_of_lt_succ n.isLt)
    have hl : l < σ.size := by
      by_contra hge
      rw [unfold, show σ.get? l = none from List.getElem?_eq_none (Nat.le_of_not_lt hge)] at hsome
      cases hsome
    exact ⟨⟨l, hl⟩, hsome, by simpa using hnone⟩
  choose object hsome hnone using level
  have later : ∀ n m, object n = object m → n ≤ m := by
    intro n m heq
    by_contra hlt
    obtain ⟨e, he⟩ := Option.isSome_iff_exists.1 (hsome m)
    refine hnone n ?_
    rw [heq, unfold_mono (.refl σ) (Fin.lt_def.1 (not_le.1 hlt)) he]
    rfl
  have hcard := Fintype.card_le_of_injective object fun n m heq =>
    le_antisymm (later n m heq) (later m n heq.symm)
  rw [Fintype.card_fin, Fintype.card_fin] at hcard
  exact Nat.not_succ_le_self _ hcard

/-- **Depth.** A value shows what it shows at any depth. -/
theorem view_of_unfold {n : Nat} (hv : σ.unfold n v = some d) : σ.view v = some d := by
  obtain ⟨m, hm, hgap⟩ := exists_gap σ
  refine unfold_mono (.refl σ) hm (unfold_of_gap hgap (j := n) ?_)
  exact unfold_mono (.refl σ) (Nat.le_add_left n m) hv

/-- Looking one object deeper finds the same. -/
theorem view_eq_unfold_succ (σ : Store) (v : Value) : σ.view v = σ.unfold (σ.size + 1) v :=
  Option.ext fun _ => ⟨unfold_mono (.refl σ) (Nat.le_succ _), view_of_unfold⟩

/-- **Views.** A value shows as one step over what shows. -/
theorem view_iff_unfolds :
    σ.view v = some d ↔ σ.Unfolds (fun v d => σ.view v = some d) v d := by
  rw [view_eq_unfold_succ, unfold_succ_iff]
  rfl

theorem view_list {l : Loc} {vs : List Value} (hl : σ.get? l = some (.list vs)) :
    σ.view (.object l) = (vs.mapM σ.view).map .list := by
  rw [view_eq_unfold_succ, unfold, hl]
  rfl

theorem view_tuple {l : Loc} {vs : List Value} (hl : σ.get? l = some (.tuple vs)) :
    σ.view (.object l) = (vs.mapM σ.view).map .tuple := by
  rw [view_eq_unfold_succ, unfold, hl]
  rfl

theorem view_diagnostic {l : Loc} {f : DiagnosticFields} (hl : σ.get? l = some (.diagnostic f)) :
    σ.view (.object l) = (do
      some (.diagnostic (← σ.view f.severity) (← σ.view f.code) (← σ.view f.message)
        (← σ.view f.labels) (← σ.view f.notes))) := by
  rw [view_eq_unfold_succ, unfold, hl]
  rfl

/-- What a value shows it shows wherever the objects that show with it look the same. -/
theorem view_of_shown
    (hshown : ∀ l c, σ.Leads Cell.shown v l → σ.get? l = some c → Cell.Calm (some c) (τ.get? l))
    (hv : σ.view v = some d) : τ.view v = some d :=
  view_of_unfold (unfold_of_shown hshown hv)

/-- Nothing new shows with a value if all objects that show with it look the same. -/
theorem Leads.of_shown (h : τ.Leads Cell.shown v k)
    (hshown : ∀ l, σ.Leads Cell.shown v l → ∃ c, σ.get? l = some c ∧
      Cell.Calm (some c) (τ.get? l)) : σ.Leads Cell.shown v k := by
  induction h with
  | here l => exact .here l
  | @through m x u l cell mem _ ih =>
    obtain ⟨c, hc, hcalm⟩ := hshown m (.here m)
    rw [cell] at hcalm
    cases hcalm with
    | same => exact .through hc mem (ih fun l hl => hshown l (.through hc mem hl))
    | used => cases mem

/-- **Views of what looks the same.** A value shows the same in two stores, or nothing in either,
if all objects that show with it are there and look the same. -/
theorem view_eq_of_shown
    (hshown : ∀ l, σ.Leads Cell.shown v l → ∃ c, σ.get? l = some c ∧
      Cell.Calm (some c) (τ.get? l)) : τ.view v = σ.view v := by
  refine Option.ext fun d => ⟨view_of_shown ?_, view_of_shown ?_⟩
  · intro l c hl hc
    obtain ⟨c', hc', hcalm⟩ := hshown l (hl.of_shown hshown)
    rw [hc']
    rw [hc] at hcalm
    cases hcalm with
    | same => exact .same _
    | used vs ws => exact .used ws vs
  · intro l c hl hc
    obtain ⟨c', hc', hcalm⟩ := hshown l hl
    obtain rfl := Option.some.inj (hc.symm.trans hc')
    exact hcalm

/-- What shows with a value is reached from it. -/
theorem Leads.reaches_of_shown (h : σ.Leads Cell.shown v k) : σ.Reaches v k := by
  induction h with
  | here l => exact .here l
  | through cell mem _ ih => exact .through cell (Cell.shown_subset_held _ mem) ih

end Store

end Diagnostics
