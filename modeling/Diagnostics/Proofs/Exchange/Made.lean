import Diagnostics.Exchange.Reading
import Diagnostics.Proofs.Data.Portable
import Diagnostics.Proofs.Store.View

/-!
# What is made of JSON

Making the value of JSON only adds objects, and the value shows what the JSON is (`ofJson_shows`).
`Json.Gives` is what the value shows: nothing for null, lists for arrays, tables for objects. That
is one-to-one but for numbers that are no number, each of which is made anew.

Native data is given by its JSON and by no other data (`IsNative.gives`, `IsNative.eq_of_gives`).
-/

namespace Diagnostics

/-! ## The data of JSON -/

/-- JSON and what the value that is made of it shows. -/
inductive Json.Gives : Json → Data → Prop where
  | null : Gives .null .none
  | bool (b : Bool) : Gives (.bool b) (.bool b)
  | int (n : Int) : Gives (.int n) (.int n)
  | real (x : Binary64) : Gives (.real x) (.real x)
  | nan (s t : Nat) : Gives (.real (.nan s)) (.real (.nan t))
  | text (s : String) : Gives (.text s) (.text s)
  | array {js ds} (items : List.Forall₂ Gives js ds) : Gives (.array js) (.list ds)
  | object {es xs} (keys : es.map Prod.fst = xs.map Prod.fst)
    (values : List.Forall₂ Gives (es.map Prod.snd) (xs.map Prod.snd)) :
    Gives (.object es) (.table xs)

section Lists

variable {α β γ : Type}

/-- Lists that are both related to a third are related through its items. -/
theorem forall₂_exists_iff {R : α → γ → Prop} {S : β → γ → Prop} {as : List α} {bs : List β} :
    List.Forall₂ (fun a b => ∃ c, R a c ∧ S b c) as bs ↔
      ∃ cs, List.Forall₂ R as cs ∧ List.Forall₂ S bs cs := by
  constructor
  · intro h
    induction h with
    | nil => exact ⟨[], .nil, .nil⟩
    | cons h _ ih =>
      obtain ⟨c, ha, hb⟩ := h
      obtain ⟨cs, has, hbs⟩ := ih
      exact ⟨c :: cs, .cons ha has, .cons hb hbs⟩
  · rintro ⟨cs, has, hbs⟩
    induction has generalizing bs with
    | nil => cases hbs; exact .nil
    | cons ha _ ih =>
      rcases hbs with _ | ⟨hb, hbs⟩
      exact .cons ⟨_, ha, hb⟩ (ih hbs)

/-- Entries are related when their keys are the same and their values are related. -/
theorem forall₂_entries_iff {R : α → β → Prop} {es : List (String × α)}
    {xs : List (String × β)} :
    List.Forall₂ (fun e x => e.1 = x.1 ∧ R e.2 x.2) es xs ↔
      es.map Prod.fst = xs.map Prod.fst ∧ List.Forall₂ R (es.map Prod.snd) (xs.map Prod.snd) := by
  induction es generalizing xs with
  | nil =>
    rw [List.forall₂_nil_left_iff]
    constructor
    · rintro rfl
      exact ⟨rfl, .nil⟩
    · rintro ⟨h, -⟩
      exact List.map_eq_nil_iff.1 h.symm
  | cons e es ih =>
    rcases xs with _ | ⟨x, xs⟩
    · simp
    · simp only [List.forall₂_cons, List.map_cons, List.cons.injEq, ih]
      exact and_and_and_comm

/-- Lists are the same when what is related to an item is the item. -/
theorem eq_of_forall₂ {R : α → α → Prop} {as bs : List α} (hR : ∀ a ∈ as, ∀ b, R a b → a = b)
    (h : List.Forall₂ R as bs) : as = bs := by
  have heach := (List.forall₂_and_left as bs).2 ⟨hR, h⟩
  have hsame : List.Forall₂ (· = ·) as bs := heach.imp fun a b hab => hab.1 b hab.2
  rwa [List.forall₂_eq_eq_eq] at hsame

end Lists

/-- An object gives a table with the same keys. -/
theorem Json.gives_table_iff {es : List (String × Json)} {xs : List (String × Data)} :
    (Json.object es).Gives (.table xs) ↔
      List.Forall₂ (fun e x => e.1 = x.1 ∧ e.2.Gives x.2) es xs := by
  rw [forall₂_entries_iff]
  constructor
  · rintro (_ | _ | _ | _ | _ | _ | _ | ⟨keys, values⟩)
    exact ⟨keys, values⟩
  · rintro ⟨keys, values⟩
    exact .object keys values

namespace Data

/-- Native data is given by its JSON. -/
theorem IsNative.gives {d : Data} (h : d.IsNative) : d.json.Gives d := by
  induction h with
  | none => exact .null
  | bool b => exact .bool b
  | int n => exact .int n
  | text s => exact .text s
  | list _ ih =>
    rw [json, jsons_eq_map]
    exact .array (List.forall₂_map_left_iff.2 (List.forall₂_same.2 ih))
  | table _ _ ih =>
    rw [json, entryJsons_eq_map, Json.gives_table_iff]
    exact List.forall₂_map_left_iff.2 (List.forall₂_same.2 fun e he => ⟨rfl, ih e he⟩)

/-- Native data is the only data that its JSON gives. -/
theorem IsNative.eq_of_gives {d : Data} (h : d.IsNative) {x : Data} (hx : d.json.Gives x) :
    d = x := by
  induction h generalizing x with
  | none => cases hx; rfl
  | bool b => cases hx; rfl
  | int n => cases hx; rfl
  | text s => cases hx; rfl
  | list _ ih =>
    rw [json, jsons_eq_map] at hx
    cases hx with
    | array items =>
      rw [eq_of_forall₂ (fun d hd x hx => ih d hd hx) (List.forall₂_map_left_iff.1 items)]
  | table _ _ ih =>
    rw [json, entryJsons_eq_map] at hx
    rcases hx with _ | _ | _ | _ | _ | _ | _ | ⟨keys, values⟩
    have hentries := List.forall₂_map_left_iff.1 (Json.gives_table_iff.1 (.object keys values))
    rw [eq_of_forall₂ (fun e he x hx => Prod.ext hx.1 (ih e he hx.2)) hentries]

end Data

namespace Store

variable {σ τ : Store} {v : Value}

/-- Whether a value shows what is made of some JSON. -/
def Shows (σ : Store) (v : Value) (j : Json) : Prop := ∃ d, σ.view v = some d ∧ j.Gives d

theorem Shows.mono (hσ : σ.Grows τ) {j : Json} (h : σ.Shows v j) : τ.Shows v j := by
  obtain ⟨d, hv, hd⟩ := h
  exact ⟨d, view_of_grows hσ hv, hd⟩

theorem Shows.eq_none (h : σ.Shows v .null) : v = .none := by
  obtain ⟨d, hv, hd⟩ := h
  cases hd
  cases unfolds_of_view hv
  rfl

theorem Shows.eq_text {s : String} (h : σ.Shows v (.text s)) : v = .text s := by
  obtain ⟨d, hv, hd⟩ := h
  cases hd
  cases unfolds_of_view hv
  rfl

theorem Shows.eq_int {n : Int} (h : σ.Shows v (.int n)) : v = .int n := by
  obtain ⟨d, hv, hd⟩ := h
  cases hd
  cases unfolds_of_view hv
  rfl

/-- What shows an array is a list of what shows its items. -/
theorem Shows.exists_list {js : List Json} (h : σ.Shows v (.array js)) :
    ∃ l vs, v = .object l ∧ σ.get? l = some (.list vs) ∧ List.Forall₂ σ.Shows vs js := by
  obtain ⟨d, hv, hd⟩ := h
  cases hd with
  | array items =>
    cases unfolds_of_view hv with
    | list cell views =>
      exact ⟨_, _, rfl, cell, forall₂_exists_iff.2 ⟨_, views, items⟩⟩

/-- What shows an object is a table with the same keys of what shows their values. -/
theorem Shows.exists_table {es : List (String × Json)} (h : σ.Shows v (.object es)) :
    ∃ l ws, v = .object l ∧ σ.get? l = some (.table ws) ∧
      List.Forall₂ (fun w e => w.1 = e.1 ∧ σ.Shows w.2 e.2) ws es := by
  obtain ⟨d, hv, hd⟩ := h
  cases hd with
  | object keys values =>
    cases unfolds_of_view hv with
    | table cell views =>
      -- both the table and the object have their keys from the data
      have hgives := Json.gives_table_iff.1 (.object keys values)
      refine ⟨_, _, rfl, cell, (forall₂_exists_iff.2 ⟨_, views, hgives⟩).imp ?_⟩
      rintro w e ⟨x, ⟨hw, hv⟩, he, hd⟩
      exact ⟨hw.trans he.symm, x.2, hv, hd⟩

end Store

namespace Exchange

/-- A new list shows an array when its items show the items. -/
theorem shows_alloc_list {σ : Store} {vs : List Value} {js : List Json}
    (h : List.Forall₂ σ.Shows vs js) :
    (σ.alloc (.list vs)).2.Shows (.object σ.size) (.array js) := by
  obtain ⟨ds, hviews, hgives⟩ := forall₂_exists_iff.1 h
  exact ⟨.list ds, Store.view_alloc (.list (Store.get?_alloc_self _ _) hviews), .array hgives⟩

/-- A new table shows an object when its entries show the entries. -/
theorem shows_alloc_table {σ : Store} {ws : List (String × Value)} {es : List (String × Json)}
    (h : List.Forall₂ (fun w e => w.1 = e.1 ∧ σ.Shows w.2 e.2) ws es) :
    (σ.alloc (.table ws)).2.Shows (.object σ.size) (.object es) := by
  -- what an entry shows, under its key, is an entry of the data
  have hmiddle : List.Forall₂ (fun w e => ∃ x : String × Data,
      (w.1 = x.1 ∧ σ.view w.2 = some x.2) ∧ (e.1 = x.1 ∧ e.2.Gives x.2)) ws es := by
    refine h.imp ?_
    rintro w e ⟨hkey, d, hv, hd⟩
    exact ⟨(w.1, d), ⟨rfl, hv⟩, hkey.symm, hd⟩
  obtain ⟨xs, hviews, hgives⟩ := forall₂_exists_iff.1 hmiddle
  exact ⟨.table xs, Store.view_alloc (.table (Store.get?_alloc_self _ _) hviews),
    Json.gives_table_iff.2 hgives⟩

mutual

/-- **Values of JSON.** Making the value of JSON adds objects, and the value shows the JSON. -/
theorem ofJson_shows (σ : Store) : (j : Json) →
    σ.Grows (ofJson σ j).2 ∧ (ofJson σ j).2.Shows (ofJson σ j).1 j
  | .null => ⟨.refl σ, _, σ.view_none, .null⟩
  | .bool b => ⟨.refl σ, _, Store.view_of_unfold_zero rfl, .bool b⟩
  | .int n => ⟨.refl σ, _, σ.view_int n, .int n⟩
  | .real (.nan t) => ⟨.newNan σ, _, Store.view_of_unfold_zero rfl, .nan t _⟩
  | .real (.infinite _) => ⟨.refl σ, _, Store.view_of_unfold_zero rfl, .real _⟩
  | .real (.finite ..) => ⟨.refl σ, _, Store.view_of_unfold_zero rfl, .real _⟩
  | .text s => ⟨.refl σ, _, σ.view_text s, .text s⟩
  | .array js => by
    obtain ⟨hgrows, hshows⟩ := ofJsons_shows σ js
    exact ⟨hgrows.trans (.alloc _ _), shows_alloc_list hshows⟩
  | .object es => by
    obtain ⟨hgrows, hshows⟩ := ofEntries_shows σ es
    exact ⟨hgrows.trans (.alloc _ _), shows_alloc_table hshows⟩

theorem ofJsons_shows (σ : Store) : (js : List Json) →
    σ.Grows (ofJsons σ js).2 ∧ List.Forall₂ (ofJsons σ js).2.Shows (ofJsons σ js).1 js
  | [] => ⟨.refl σ, .nil⟩
  | j :: js => by
    -- the first value is made first, and shows what it did when the others have been made
    obtain ⟨hfirst, hj⟩ := ofJson_shows σ j
    obtain ⟨hmore, hjs⟩ := ofJsons_shows (ofJson σ j).2 js
    exact ⟨hfirst.trans hmore, .cons (hj.mono hmore) hjs⟩

theorem ofEntries_shows (σ : Store) : (es : List (String × Json)) →
    σ.Grows (ofEntries σ es).2 ∧ List.Forall₂
      (fun w e => w.1 = e.1 ∧ (ofEntries σ es).2.Shows w.2 e.2) (ofEntries σ es).1 es
  | [] => ⟨.refl σ, .nil⟩
  | (k, j) :: es => by
    obtain ⟨hfirst, hj⟩ := ofJson_shows σ j
    obtain ⟨hmore, hes⟩ := ofEntries_shows (ofJson σ j).2 es
    exact ⟨hfirst.trans hmore, .cons ⟨rfl, hj.mono hmore⟩ hes⟩

end

/-! ## Texts -/

section Texts

variable {α : Type} (check : Store → Value → Check α) {text : String}

/-- A text that JSON can be read from makes the value of that JSON, which is then checked. -/
theorem checkText_of_read {j : Json} (h : Json.read .standard text = .ok j) (σ : Store) :
    checkText check σ (.text text) = (check (ofJson σ j).2 (ofJson σ j).1, (ofJson σ j).2) := by
  simp only [checkText, parse, readText?, Value.asText?, h]

/-- A text that no JSON can be read from is refused, and nothing is made. -/
theorem checkText_of_fault {fault : Json.Fault} {position : Json.Position}
    (h : Json.read .standard text = .error (fault, position)) (σ : Store) :
    checkText check σ (.text text) = (.refuse (.malformedJson fault position), σ) := by
  simp only [checkText, parse, readText?, Value.asText?, h]

end Texts

end Exchange

end Diagnostics
