import Diagnostics.Proofs.Exchange.Made

/-!
# Values that are made of the same JSON

What is made of the same JSON twice, into whatever stores, shows the same but for one thing: a value
that is no number is told apart from all others. `Data.unmarked` forgets that mark, and what the
same JSON gives is the same then (`Json.Gives.unmarked_eq`).

`Store.Twins` says of two such values what can be seen without going into them: they are equal,
or both are no number, or both are lists, or both are tables.
-/

namespace Diagnostics

namespace Data

mutual

/-- Data in which all values that are no number count as one. -/
def unmarked : Data → Data
  | real (.nan _) => real (.nan 0)
  | list ds => list (unmarkedItems ds)
  | tuple ds => tuple (unmarkedItems ds)
  | table es => table (unmarkedEntries es)
  | set ds => set (unmarkedItems ds)
  | slice start stop step => slice (unmarked start) (unmarked stop) (unmarked step)
  | byteRange start stop => byteRange (unmarked start) (unmarked stop)
  | label how file region message =>
    label (unmarked how) (unmarked file) (unmarked region) (unmarked message)
  | diagnostic level code message labels notes =>
    diagnostic (unmarked level) (unmarked code) (unmarked message) (unmarked labels)
      (unmarked notes)
  | d => d

/-- Items in which all values that are no number count as one. -/
def unmarkedItems : List Data → List Data
  | [] => []
  | d :: ds => unmarked d :: unmarkedItems ds

/-- Entries in which all values that are no number count as one. -/
def unmarkedEntries : List (String × Data) → List (String × Data)
  | [] => []
  | (k, d) :: es => (k, unmarked d) :: unmarkedEntries es

end

@[simp] theorem unmarkedItems_eq_map (ds : List Data) : unmarkedItems ds = ds.map unmarked := by
  induction ds with
  | nil => rfl
  | cons d ds ih => rw [unmarkedItems, ih, List.map_cons]

@[simp] theorem unmarkedEntries_eq_map (es : List (String × Data)) :
    unmarkedEntries es = es.map fun e => (e.1, e.2.unmarked) := by
  induction es with
  | nil => rfl
  | cons e es ih => rw [unmarkedEntries, ih, List.map_cons]

end Data

namespace Json

mutual

/-- **Data of JSON.** What the same JSON gives is the same but for marks. -/
theorem Gives.unmarked_eq : (j : Json) → {d e : Data} → j.Gives d → j.Gives e →
    d.unmarked = e.unmarked
  | .null, _, _, hd, he => by cases hd; cases he; rfl
  | .bool _, _, _, hd, he => by cases hd; cases he; rfl
  | .int _, _, _, hd, he => by cases hd; cases he; rfl
  | .real _, _, _, hd, he => by cases hd <;> cases he <;> rfl
  | .text _, _, _, hd, he => by cases hd; cases he; rfl
  | .array js, _, _, hd, he => by
    cases hd with
    | array items =>
      cases he with
      | array items' =>
        simp only [Data.unmarked, Data.unmarkedItems_eq_map, unmarked_items_eq js items items']
  | .object es, _, _, hd, he => by
    cases hd with
    | object keys values =>
      cases he with
      | object keys' values' =>
        have hxs := gives_table_iff.1 (.object keys values)
        have hys := gives_table_iff.1 (.object keys' values')
        simp only [Data.unmarked, Data.unmarkedEntries_eq_map, unmarked_entries_eq es hxs hys]

theorem unmarked_items_eq : (js : List Json) → {ds es : List Data} →
    List.Forall₂ Gives js ds → List.Forall₂ Gives js es →
      ds.map Data.unmarked = es.map Data.unmarked
  | [], _, _, hds, hes => by cases hds; cases hes; rfl
  | j :: js, _, _, hds, hes => by
    obtain _ | ⟨hd, hds⟩ := hds
    obtain _ | ⟨he, hes⟩ := hes
    rw [List.map_cons, List.map_cons, Gives.unmarked_eq j hd he, unmarked_items_eq js hds hes]

theorem unmarked_entries_eq : (es : List (String × Json)) → {xs ys : List (String × Data)} →
    List.Forall₂ (fun e x => e.1 = x.1 ∧ e.2.Gives x.2) es xs →
      List.Forall₂ (fun e y => e.1 = y.1 ∧ e.2.Gives y.2) es ys →
        xs.map (fun x => (x.1, x.2.unmarked)) = ys.map fun y => (y.1, y.2.unmarked)
  | [], _, _, hxs, hys => by cases hxs; cases hys; rfl
  | (_, j) :: es, _, _, hxs, hys => by
    obtain _ | ⟨⟨hx, hd⟩, hxs⟩ := hxs
    obtain _ | ⟨⟨hy, he⟩, hys⟩ := hys
    rw [List.map_cons, List.map_cons, ← hx, ← hy, Gives.unmarked_eq j hd he,
      unmarked_entries_eq es hxs hys]

end

end Json

namespace Store

variable {σ τ : Store} {v w : Value}

/-- Two values, each in a store of its own, that are the same as far as can be seen from
outside. -/
inductive Twins (σ τ : Store) : Value → Value → Prop where
  | plain {v : Value} (plain : v.loc? = none) : Twins σ τ v v
  | nan (s t : Nat) : Twins σ τ (.real (.nan s)) (.real (.nan t))
  | list {l k vs ws} (left : σ.get? l = some (.list vs)) (right : τ.get? k = some (.list ws)) :
    Twins σ τ (.object l) (.object k)
  | table {l k vs ws} (left : σ.get? l = some (.table vs)) (right : τ.get? k = some (.table ws)) :
    Twins σ τ (.object l) (.object k)

/-- **Twins.** Values that are made of the same JSON are twins. -/
theorem Shows.twins {j : Json} (hv : σ.Shows v j) (hw : τ.Shows w j) : Twins σ τ v w := by
  cases j with
  | array js =>
    obtain ⟨l, vs, rfl, hl, -⟩ := hv.exists_list
    obtain ⟨k, ws, rfl, hk, -⟩ := hw.exists_list
    exact .list hl hk
  | object es =>
    obtain ⟨l, vs, rfl, hl, -⟩ := hv.exists_table
    obtain ⟨k, ws, rfl, hk, -⟩ := hw.exists_table
    exact .table hl hk
  | real x =>
    obtain ⟨d, hd, hx⟩ := hv
    obtain ⟨e, he, hy⟩ := hw
    cases hx <;> cases hy <;> cases unfolds_of_view hd <;> cases unfolds_of_view he
    · exact .plain rfl
    · exact .nan _ _
    · exact .nan _ _
    · exact .nan _ _
  | _ =>
    obtain ⟨d, hd, hx⟩ := hv
    obtain ⟨e, he, hy⟩ := hw
    cases hx
    cases hy
    cases unfolds_of_view hd
    cases unfolds_of_view he
    exact .plain rfl

theorem cell?_of_loc? (σ : Store) (h : v.loc? = none) : σ.cell? v = none := by
  cases v with
  | object l => cases h
  | _ => rfl

end Store

end Diagnostics
