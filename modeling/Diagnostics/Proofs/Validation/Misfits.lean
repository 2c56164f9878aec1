import Diagnostics.Proofs.Validation.FromJson

/-!
# What ends a check of plain data

Of all that JSON can hold, only one thing ends a check with a failure: the range of a label that is
an array, but no pair. Everything else is valid or is listed among the issues. `Json.misfit?` finds
the first such range and how many items it has, and `failure?_diagnostic` says that a check of what
is made of the JSON ends with that failure and with no other.
-/

namespace Diagnostics

/-! ## Ranges that are no pairs -/

namespace Json

/-- How many items an array has that is no pair. -/
def unpaired? : Json → Option Nat
  | array js => if js.length = 2 then none else some js.length
  | _ => none

/-- How many items the range of a label has, if it is an array but no pair. -/
def labelMisfit? : Json → Option Nat
  | object es => (es.lookup "range").bind unpaired?
  | _ => none

/-- What is found first in the items of an array. -/
def firstItem? (f : Json → Option Nat) : Json → Option Nat
  | array js => js.findSome? f
  | _ => none

/-- How many items the first range among the labels of a diagnostic has that is an array but no
pair. -/
def misfit? : Json → Option Nat
  | object es => (es.lookup "labels").bind (firstItem? labelMisfit?)
  | _ => none

/-- How many items the first such range has in a list of diagnostics. -/
def misfitInList? : Json → Option Nat := firstItem? misfit?

end Json

/-- Searches that agree on related items find the same. -/
theorem findSome?_of_forall₂ {α β γ : Type} {R : α → β → Prop} {f : α → Option γ}
    {g : β → Option γ} (hfg : ∀ a b, R a b → f a = g b) {as : List α} {bs : List β}
    (h : List.Forall₂ R as bs) : as.findSome? f = bs.findSome? g := by
  induction h with
  | nil => rfl
  | cons hab _ ih => rw [List.findSome?_cons, List.findSome?_cons, hfg _ _ hab, ih]

/-- Looking up finds nothing that fails, where related values fail alike. -/
theorem Store.bind_lookup_of_shows {σ : Store} {γ : Type} {ws : List (String × Value)}
    {es : List (String × Json)} {f : Value → Option γ} {g : Json → Option γ}
    (hfg : ∀ v j, σ.Shows v j → f v = g j)
    (h : List.Forall₂ (fun w e => w.1 = e.1 ∧ σ.Shows w.2 e.2) ws es) (key : String) :
    (ws.lookup key).bind f = (es.lookup key).bind g := by
  have hrel := lookup_shows h key
  generalize ws.lookup key = v? at hrel
  generalize es.lookup key = j? at hrel
  cases hrel with
  | none => rfl
  | some hshows => exact hfg _ _ hshows

/-- What shows JSON that holds nothing is no object. -/
theorem Store.Shows.cell?_eq_none {σ : Store} {v : Value} {j : Json} (h : σ.Shows v j)
    (harray : ∀ js, j ≠ .array js) (hobject : ∀ es, j ≠ .object es) : σ.cell? v = none := by
  obtain ⟨d, hv, hd⟩ := h
  cases hd with
  | array => exact absurd rfl (harray _)
  | object => exact absurd rfl (hobject _)
  | _ =>
    cases Store.unfolds_of_view hv
    rfl

namespace Validation

variable {σ : Store} {source : Source} {v : Value} {j : Json}

/-! ## Records and lists -/

/-- A record ends no check if its fields never do. -/
theorem failure?_record {α : Type} {name : String} {isRecord : Cell → Bool}
    {fields : List (String × Value) → Check α} (hf : ∀ ws, (fields ws).failure? = none)
    (σ : Store) (v : Value) : (record source name isRecord fields σ v).failure? = none := by
  unfold record
  split
  · split
    · rfl
    · split
      · rw [Check.failure?_map, hf]
      · rfl
  · rfl

/-- What is no table is refused where a record is asked for. -/
theorem record_of_shows {α : Type} {name : String} {isRecord : Cell → Bool}
    (fields : List (String × Value) → Check α) (hr : ∀ vs, isRecord (.list vs) = false)
    (h : σ.Shows v j) (hobject : ∀ es, j ≠ .object es) :
    record source name isRecord fields σ v = .refuse (.notARecord source name) := by
  cases j with
  | array js =>
    obtain ⟨l, vs, rfl, hl, -⟩ := h.exists_list
    simp only [record, Store.cell?, hl, hr, Bool.false_eq_true, if_false]
  | object es => exact absurd rfl (hobject es)
  | _ =>
    have hcell := h.cell?_eq_none (by simp) (by simp)
    unfold record
    split
    · next hc =>
      rw [hc] at hcell
      cases hcell
    · rfl

/-- A list ends no check if its items never do. -/
theorem failure?_listOf {α : Type} {check : Store → Value → Check α}
    (hc : ∀ σ v, (check σ v).failure? = none) (σ : Store) (v : Value) :
    (listOf source check σ v).failure? = none := by
  rw [listOf]
  split
  · rw [Check.failure?_each]
    simp only [hc, List.findSome?_eq_none_iff, implies_true]
  · rfl

/-- A field that never ends a check does not do so in a record either. -/
theorem bind_failure?_eq_none {α : Type} {check : Value → Check α}
    (hc : ∀ v, (check v).failure? = none) (v? : Option Value) :
    (v?.bind fun v => (check v).failure?) = none := by
  simp only [hc, Option.bind_fun_none]

/-! ## Byte ranges -/

/-- A range that is given by its fields ends no check. -/
theorem failure?_byteRange (σ : Store) (v : Value) : (byteRange source σ v).failure? = none := by
  refine failure?_record (fun ws => ?_) σ v
  rw [byteRangeFields, Check.failure?_map, Check.failure?_both, failure?_required,
    failure?_required]
  simp

/-- Inside a label, what fails for being no pair fails still. -/
theorem failure?_contain {α : Type} {c : Check α} (h : c.failure? ≠ some .integerTooLong) :
    (contain c).failure? = c.failure? := by
  unfold contain
  split
  · exact absurd rfl h
  · rfl

/-- Items make a range when they are two, and end the check when they are not. -/
theorem failure?_pair (vs : List Value) :
    (pair vs).failure? = if vs.length = 2 then none else some (.notAPair vs.length) := by
  rcases vs with _ | ⟨a, _ | ⟨b, _ | ⟨c, vs⟩⟩⟩
  · rfl
  · rfl
  · exact failure?_bounds a b
  · rw [if_neg (by simp)]
    rfl

variable (source)

/-- The range of a label ends a check exactly when it is an array that is no pair. -/
theorem failure?_labelRange (h : σ.Shows v j) :
    (labelRange source σ v).failure? = j.unpaired?.map .notAPair := by
  cases j with
  | array js =>
    obtain ⟨l, vs, rfl, hl, hvs⟩ := h.exists_list
    have hpair : labelRange source σ (.object l) = contain (pair vs) := by
      simp only [labelRange, asByteRange, Store.cell?, hl]
    have hcontain : (pair vs).failure? ≠ some .integerTooLong := by
      rw [failure?_pair]
      split <;> simp
    rw [hpair, failure?_contain hcontain, failure?_pair, hvs.length_eq, Json.unpaired?]
    split <;> rfl
  | object es =>
    obtain ⟨l, ws, rfl, hl, -⟩ := h.exists_table
    simp only [labelRange, Store.cell?, hl]
    exact failure?_byteRange _ _
  | _ =>
    have hcell := h.cell?_eq_none (by simp) (by simp)
    simp only [labelRange, hcell]
    exact failure?_byteRange _ _

/-! ## Labels and diagnostics -/

/-- A label ends a check exactly when its range does. -/
theorem failure?_label (h : σ.Shows v j) :
    (label source σ v).failure? = j.labelMisfit?.map .notAPair := by
  cases j with
  | object es =>
    obtain ⟨l, ws, rfl, hl, hws⟩ := h.exists_table
    have hrange := Store.bind_lookup_of_shows
      (fun _ _ hv => failure?_labelRange source hv) hws "range"
    rw [label, record_of_table _ hl rfl, labelFields]
    simp only [Check.failure?_map, Check.failure?_both, failure?_required, failure?_optional]
    -- of the four fields only the range can end the check
    rw [bind_failure?_eq_none (failure?_style σ), bind_failure?_eq_none (failure?_text σ),
      bind_failure?_eq_none (fun _ => rfl), hrange, Option.none_or, Option.none_or, Option.or_none,
      Json.labelMisfit?, Option.map_bind]
    rfl
  | _ =>
    rw [label, record_of_shows _ (fun _ => rfl) h (by simp)]
    rfl

/-- What shows no array is refused where a list is asked for. -/
theorem listOf_of_shows {α : Type} (check : Store → Value → Check α) (h : σ.Shows v j)
    (harray : ∀ js, j ≠ .array js) : listOf source check σ v = .refuse (.notAList source) := by
  cases j with
  | array js => exact absurd rfl (harray js)
  | object es =>
    obtain ⟨l, ws, rfl, hl, -⟩ := h.exists_table
    simp only [listOf, listElements?, Store.cell?, hl]
  | _ =>
    have hcell := h.cell?_eq_none (by simp) (by simp)
    simp only [listOf, listElements?, hcell]

/-- A list ends a check with the first item that does. -/
theorem failure?_listOf_of_shows {α : Type} {check : Store → Value → Check α}
    {f : Json → Option Nat}
    (hc : ∀ v j, σ.Shows v j → (check σ v).failure? = (f j).map .notAPair) (h : σ.Shows v j) :
    (listOf source check σ v).failure? = (j.firstItem? f).map .notAPair := by
  cases j with
  | array js =>
    obtain ⟨l, vs, rfl, hl, hvs⟩ := h.exists_list
    rw [listOf_of_list _ hl, Check.failure?_each, findSome?_of_forall₂ hc hvs]
    exact List.map_findSome?.symm
  | _ =>
    rw [listOf_of_shows source _ h (by simp)]
    rfl

/-- **Diagnostics.** A check of what is made of JSON ends with a failure exactly when the range of a
label is an array but no pair, and then it is that failure. -/
theorem failure?_diagnostic (h : σ.Shows v j) :
    (diagnostic source σ v).failure? = j.misfit?.map .notAPair := by
  cases j with
  | object es =>
    obtain ⟨l, ws, rfl, hl, hws⟩ := h.exists_table
    have hlabels := Store.bind_lookup_of_shows
      (fun _ _ => failure?_listOf_of_shows source fun _ _ => failure?_label source) hws "labels"
    rw [diagnostic, record_of_table _ hl rfl, diagnosticFields]
    simp only [Check.failure?_map, Check.failure?_both, failure?_required, failure?_optional,
      labels, notes]
    -- of the five fields only the labels can end the check
    rw [bind_failure?_eq_none (failure?_severity σ), bind_failure?_eq_none (failure?_text σ),
      bind_failure?_eq_none (failure?_textOrNone σ),
      bind_failure?_eq_none (failure?_listOf (fun τ v => failure?_text τ v) _), hlabels,
      Option.none_or, Option.none_or, Option.none_or, Option.or_none, Json.misfit?,
      Option.map_bind]
    rfl
  | _ =>
    rw [diagnostic, record_of_shows _ (fun _ => rfl) h (by simp)]
    rfl

/-- **Lists.** A check of a list of diagnostics ends with a failure exactly when one of them
does. -/
theorem failure?_diagnostics (h : σ.Shows v j) :
    (listOf source (diagnostic source) σ v).failure? = j.misfitInList?.map .notAPair :=
  failure?_listOf_of_shows source (fun _ _ => failure?_diagnostic source) h

end Validation

end Diagnostics
