import Diagnostics.Proofs.Exchange.Elementwise
import Diagnostics.Proofs.Json.Ranges
import Diagnostics.Proofs.Validation.Spellings

/-!
# JSON that differs in one place

Two JSON values that differ in one place show in one store as data and the same data with that place
written anew (`exists_written`). So what is known of data with a range in two spellings holds of JSON
with a range in two spellings (`diagnostic_eq_of_differ`), and of the texts from which these are read.
-/

namespace Diagnostics

variable {σ τ : Store} {a v w r r' start stop : Value} {path : List PathStep}

/-- Items that are related stay so when related items take the same place. -/
theorem forall₂_set {α β : Type} {R : α → β → Prop} {as : List α} {bs : List β}
    (h : List.Forall₂ R as bs) {a : α} {b : β} (hab : R a b) (i : Nat) :
    List.Forall₂ R (as.set i a) (bs.set i b) := by
  induction h generalizing i with
  | nil => exact .nil
  | cons hfirst hrest ih =>
    cases i with
    | zero => exact .cons hab hrest
    | succ i => exact .cons hfirst (ih i)

/-- Entries that are related stay so when related values are put in. -/
theorem forall₂_put {α β : Type} {R : α → β → Prop} {ws : List (String × α)}
    {es : List (String × β)} (h : List.Forall₂ (fun w e => w.1 = e.1 ∧ R w.2 e.2) ws es) {a : α}
    {b : β} (hab : R a b) (key : String) :
    List.Forall₂ (fun w e => w.1 = e.1 ∧ R w.2 e.2) (Json.put key a ws) (Json.put key b es) := by
  induction h with
  | nil => exact .cons ⟨rfl, hab⟩ .nil
  | @cons w e ws es hfirst hrest ih =>
    obtain ⟨k, c⟩ := w
    obtain ⟨k', d⟩ := e
    obtain ⟨rfl, hcd⟩ := hfirst
    rw [Json.put, Json.put]
    split
    · exact .cons ⟨rfl, hab⟩ hrest
    · exact .cons ⟨rfl, hcd⟩ ih

namespace Store

theorem Grows.cell? (hσ : σ.Grows τ) {c : Cell} (h : σ.cell? v = some c) : τ.cell? v = some c := by
  obtain ⟨l, rfl, hl⟩ := exists_of_cell? h
  exact hσ.get? hl

theorem Written.mono (hσ : σ.Grows τ) (h : σ.Written a path v w) : τ.Written a path v w := by
  induction h with
  | here v => exact .here v
  | entry cell written => exact .entry (hσ.cell? cell) (hσ.cell? written)
  | field cell value _ written ih => exact .field (hσ.cell? cell) value ih (hσ.cell? written)
  | item row cell item _ written ih => exact .item row (hσ.cell? cell) item ih (hσ.cell? written)

theorem Spelling.mono (hσ : σ.Grows τ) (h : σ.Spelling start stop r) :
    τ.Spelling start stop r := by
  cases h with
  | list cell => exact .list (hσ.cell? cell)
  | tuple cell => exact .tuple (hσ.cell? cell)
  | slice starts stops cell => exact .slice starts stops (hσ.cell? cell)
  | table cell => exact .table (hσ.cell? cell)

/-- What is made of JSON is no one-shot sequence. -/
theorem Shows.not_iterator {j : Json} (h : σ.Shows v j) (rest : List Value) :
    σ.cell? v ≠ some (.iterator rest) := by
  intro hv
  cases j with
  | array js =>
    obtain ⟨l, vs, rfl, hl, -⟩ := h.exists_list
    cases hv.symm.trans hl
  | object es =>
    obtain ⟨l, vs, rfl, hl, -⟩ := h.exists_table
    cases hv.symm.trans hl
  | _ => cases hv.symm.trans (h.cell?_eq_none (by simp) (by simp))

theorem Shows.apart {j : Json} (h : σ.Shows v j) : σ.Apart v := by
  intro entries u hv hu _
  cases j with
  | object es =>
    obtain ⟨l, ws, rfl, hl, hws⟩ := h.exists_table
    cases hv.symm.trans hl
    have hrel := lookup_shows hws "labels"
    rw [hu] at hrel
    generalize es.lookup "labels" = found at hrel
    cases hrel with
    | some hshows => exact hshows.not_iterator
  | array js =>
    obtain ⟨l, vs, rfl, hl, -⟩ := h.exists_list
    cases hv.symm.trans hl
  | _ => cases hv.symm.trans (h.cell?_eq_none (by simp) (by simp))

end Store

namespace Exchange

open Store

/-- Two new objects, one after the other. -/
theorem cell?_alloc_alloc (σ : Store) (c d : Cell) :
    ((σ.alloc c).2.alloc d).2.cell? (.object σ.size) = some c ∧
      ((σ.alloc c).2.alloc d).2.cell? (.object (σ.alloc c).2.size) = some d :=
  ⟨(Grows.alloc (σ.alloc c).2 d).get? (get?_alloc_self σ c), get?_alloc_self _ d⟩

/-- JSON that differs in one place shows as data in which this place is written anew. -/
theorem exists_written {b c j j' : Json} (h : Json.Differ b c path j j') (hr : σ.Shows r b)
    (hr' : σ.Shows r' c) :
    ∃ τ v w, σ.Grows τ ∧ τ.Shows v j ∧ τ.Shows w j' ∧ τ.Written r path v v ∧
      τ.Written r' path v w := by
  induction h with
  | here => exact ⟨σ, r, r', .refl σ, hr, hr', .here r, .here r⟩
  | @field name path es j j' value _ ih =>
    obtain ⟨τ, u, x, hσ, hu, hx, hwritten, hwritten'⟩ := ih
    obtain ⟨hτ, hentries⟩ := ofEntries_shows τ es
    generalize (ofEntries τ es).1 = ws at hentries
    generalize (ofEntries τ es).2 = ρ at hτ hentries
    have hold := forall₂_put hentries (hu.mono hτ) name
    rw [Json.put_of_lookup value] at hold
    have hρ := Grows.alloc ρ (.table (Json.put name u ws))
    have hρ' := Grows.alloc (ρ.alloc (.table (Json.put name u ws))).2
      (.table (Json.put name x (Json.put name u ws)))
    have hτρ := hτ.trans (hρ.trans hρ')
    obtain ⟨hl, hk⟩ := cell?_alloc_alloc ρ (.table (Json.put name u ws))
      (.table (Json.put name x (Json.put name u ws)))
    have hnew := forall₂_put (hold.imp fun _ _ h => ⟨h.1, h.2.mono hρ⟩)
      (hx.mono (hτ.trans hρ)) name
    have hvalue : (Json.put name u ws).lookup name = some u := Json.lookup_put_self ..
    refine ⟨_, _, _, hσ.trans hτρ, (shows_alloc_table hold).mono hρ', shows_alloc_table hnew,
      .field hl hvalue (hwritten.mono hτρ) ?_, .field hl hvalue (hwritten'.mono hτρ) hk⟩
    rwa [Json.put_put name u u]
  | @item i path js j j' item _ ih =>
    obtain ⟨τ, u, x, hσ, hu, hx, hwritten, hwritten'⟩ := ih
    obtain ⟨hτ, hitems⟩ := ofJsons_shows τ js
    generalize (ofJsons τ js).1 = vs at hitems
    generalize (ofJsons τ js).2 = ρ at hτ hitems
    have hold := forall₂_set hitems (hu.mono hτ) i
    obtain ⟨hi, hj⟩ := List.getElem?_eq_some_iff.1 item
    rw [← hj, List.set_getElem_self] at hold
    have hρ := Grows.alloc ρ (.list (vs.set i u))
    have hρ' := Grows.alloc (ρ.alloc (.list (vs.set i u))).2 (.list ((vs.set i u).set i x))
    have hτρ := hτ.trans (hρ.trans hρ')
    obtain ⟨hl, hk⟩ := cell?_alloc_alloc ρ (.list (vs.set i u)) (.list ((vs.set i u).set i x))
    have hnew := forall₂_set (hold.imp fun _ _ h => h.mono hρ) (hx.mono (hτ.trans hρ)) i
    have hvalue : (vs.set i u)[i]? = some u :=
      List.getElem?_set_self (hitems.length_eq ▸ hi)
    refine ⟨_, _, _, hσ.trans hτρ, (shows_alloc_list hold).mono hρ', shows_alloc_list hnew,
      .item .list hl hvalue (hwritten.mono hτρ) ?_, .item .list hl hvalue (hwritten'.mono hτρ) hk⟩
    have hself : (vs.set i u).set i u = vs.set i u := List.set_set u
    rwa [hself]

/-- The values of a range show with ends that any spelling of the range has. -/
theorem exists_spelling {s t b : Json} (h : Json.IsRange s t b) (hstart : σ.Shows start s)
    (hstop : σ.Shows stop t) :
    ∃ τ r, σ.Grows τ ∧ τ.Shows r b ∧ τ.Spelling start stop r := by
  cases h with
  | list => exact ⟨_, _, .alloc σ _, shows_alloc_list (.cons hstart (.cons hstop .nil)),
      .list (get?_alloc_self σ _)⟩
  | table => exact ⟨_, _, .alloc σ _,
      shows_alloc_table (.cons ⟨rfl, hstart⟩ (.cons ⟨rfl, hstop⟩ .nil)),
      .table (get?_alloc_self σ _)⟩

/-- **JSON of ranges.** JSON with the range of a label in two spellings shows as data of which the
check is the same. -/
theorem diagnostic_eq_of_differ {i : Nat} {s t b c j j' : Json} (hb : Json.IsRange s t b)
    (hc : Json.IsRange s t c) (h : Json.Differ b c (rangeOfLabel i) j j') (source : Source) :
    ∃ τ v w, τ.Shows v j ∧ τ.Shows w j' ∧
      Validation.diagnostic source τ v = Validation.diagnostic source τ w := by
  obtain ⟨-, hstart⟩ := ofJson_shows .empty s
  obtain ⟨hgrows, hstop⟩ := ofJson_shows (ofJson .empty s).2 t
  obtain ⟨ρ, r, hρ, hr, hspelling⟩ := exists_spelling hb (hstart.mono hgrows) hstop
  obtain ⟨ρ', r', hρ', hr', hspelling'⟩ := exists_spelling hc ((hstart.mono hgrows).mono hρ)
    (hstop.mono hρ)
  obtain ⟨τ, v, w, hτ, hv, hw, hwritten, hwritten'⟩ := exists_written h (hr.mono hρ') hr'
  refine ⟨τ, v, w, hv, hw, Validation.diagnostic_eq_of_rangeWritten ?_
    (.apart hv.apart hv.apart hwritten) (.apart hv.apart hw.apart hwritten')⟩
  rw [Validation.labelRange_of_spelling ((hspelling.mono hρ').mono hτ),
    Validation.labelRange_of_spelling (hspelling'.mono hτ)]

end Exchange

end Diagnostics
