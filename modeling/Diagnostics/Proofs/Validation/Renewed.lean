import Diagnostics.Proofs.Store.Akin
import Diagnostics.Proofs.Store.Written
import Diagnostics.Proofs.Validation.Issues

/-!
# One place checked anew

When one place in data gets a value that is valid there, the issues at that place and below it are
gone, and all others stay as they are (`Check.Renewed`). The relation goes through checks that are
put together of parts, so it is shown of one field or one item at a time.
-/

namespace Diagnostics

variable {α β : Type} {path : List PathStep}

namespace Issue

/-- The issues that are neither at the end of a path nor below it. -/
def outside (path : List PathStep) (issues : List Issue) : List Issue :=
  issues.filter fun i => !path.isPrefixOf i.path

@[simp] theorem outside_here (issues : List Issue) : outside [] issues = [] := by
  simp [outside]

theorem outside_append (path : List PathStep) (is js : List Issue) :
    outside path (is ++ js) = outside path is ++ outside path js :=
  List.filter_append ..

theorem outside_under (step : PathStep) (path : List PathStep) (issues : List Issue) :
    outside (step :: path) (issues.map (Issue.under step)) =
      (outside path issues).map (Issue.under step) := by
  simp [outside, List.filter_map, Function.comp_def]

/-- Issues below another step are all outside. -/
theorem outside_under_of_ne {step other : PathStep} (h : step ≠ other) (path : List PathStep)
    (issues : List Issue) : outside (step :: path) (issues.map (Issue.under other)) =
      issues.map (Issue.under other) := by
  simp [outside, List.filter_map, Function.comp_def, List.isPrefixOf, beq_false_of_ne h]

end Issue

namespace Check

/-- Whether the second check has the issues of the first outside a path, and no failure ends it. -/
def Renewed (path : List PathStep) (c c' : Check α) : Prop :=
  c.failure? = none → c'.failure? = none ∧ c'.issues = Issue.outside path c.issues

namespace Renewed

variable {c c' : Check α} {d d' : Check β}

/-- What is valid as a whole has no issues. -/
theorem of_valid {a : α} (h : c' = .valid a) : c.Renewed [] c' := by
  intro _
  rw [h, Issue.outside_here]
  exact ⟨rfl, rfl⟩

theorem map (h : c.Renewed path c') (f : α → β) : (c.map f).Renewed path (c'.map f) := by
  intro hc
  rw [failure?_map] at hc
  obtain ⟨hc', hissues⟩ := h hc
  rw [failure?_map, issues_map, issues_map]
  exact ⟨hc', hissues⟩

theorem under (h : c.Renewed path c') (step : PathStep) :
    (c.under step).Renewed (step :: path) (c'.under step) := by
  intro hc
  rw [failure?_under] at hc
  obtain ⟨hc', hissues⟩ := h hc
  rw [failure?_under, issues_under, issues_under, hissues, Issue.outside_under]
  exact ⟨hc', rfl⟩

/-- A place has nothing to do with what is below another step. -/
theorem elsewhere {step other : PathStep} (h : step ≠ other) (path : List PathStep) (c : Check α) :
    (c.under other).Renewed (step :: path) (c.under other) := by
  intro hc
  rw [issues_under, Issue.outside_under_of_ne h]
  exact ⟨hc, rfl⟩

theorem both (h : c.Renewed path c') (h' : d.Renewed path d') :
    (c.both d).Renewed path (c'.both d') := by
  intro hboth
  obtain ⟨hc, hd⟩ := failure?_both_eq_none_iff.1 hboth
  obtain ⟨hc', hissues⟩ := h hc
  obtain ⟨hd', hissues'⟩ := h' hd
  have hboth' := failure?_both_eq_none_iff.2 ⟨hc', hd'⟩
  refine ⟨hboth', ?_⟩
  rw [issues_both hboth, issues_both hboth', hissues, hissues', Issue.outside_append]

/-- Items that come later have nothing to do with a place. -/
theorem each_elsewhere (f : α → Check β) {i k : Nat} (h : k < i) (path : List PathStep)
    (as : List α) : (each f i as).Renewed (.index k :: path) (each f i as) := by
  induction as generalizing i with
  | nil => exact fun h => ⟨h, rfl⟩
  | cons a as ih =>
    have hne : PathStep.index k ≠ .index i := fun h' => absurd (PathStep.index.inj h') (by omega)
    exact ((elsewhere hne path (f a)).both (ih (by omega))).map _

/-- One item is checked anew. -/
theorem each_set {f : α → Check β} {as : List α} {k : Nat} {a x : α} (ha : as[k]? = some a)
    (h : (f a).Renewed path (f x)) (i : Nat) :
    (each f i as).Renewed (.index (i + k) :: path) (each f i (as.set k x)) := by
  induction as generalizing i k with
  | nil => cases ha
  | cons b as ih =>
    cases k with
    | zero =>
      obtain rfl := Option.some.inj ha
      exact ((h.under (.index i)).both (each_elsewhere f (Nat.lt_succ_self i) path as)).map _
    | succ k =>
      have hne : PathStep.index (i + (k + 1)) ≠ .index i := fun h' =>
        absurd (PathStep.index.inj h') (by omega)
      have hrest := ih ha (i + 1)
      rw [Nat.add_assoc, Nat.add_comm 1] at hrest
      exact ((elsewhere hne path (f b)).both hrest).map _

end Renewed

end Check

namespace Validation

open Store

variable {σ τ : Store} {v w x : Value} {entries : List (String × Value)} {source : Source}

/-! ## Fields -/

/-- Whether a value, in place of another or of none, is valid or is the other checked anew. -/
def Renews (check : Value → Check α) (path : List PathStep) (old : Option Value) (x : Value) :
    Prop :=
  (path = [] ∧ ∃ a, check x = .valid a) ∨
    ∃ u, old = some u ∧ (check u).Renewed path (check x)

/-- What the value of a field comes to, or its absence. -/
def given (absent : Check α) (check : Value → Check α) : Option Value → Check α
  | some v => check v
  | none => absent

theorem required_eq_given (name : String) (check : Value → Check α)
    (entries : List (String × Value)) : required name check entries =
      (given (.refuse .missing) check (entries.lookup name)).under (.field name) := by
  rw [required]
  cases entries.lookup name <;> rfl

theorem optional_eq_given (name : String) (default : α) (check : Value → Check α)
    (entries : List (String × Value)) : optional name default check entries =
      (given (.valid default) check (entries.lookup name)).under (.field name) := by
  rw [optional]
  cases entries.lookup name <;> rfl

/-- A field is checked anew when it is the one that is put, and else it stays as it is. -/
theorem given_put {name field : String} (absent : Check α) {check : Value → Check α}
    (h : field = name → Renews check path (entries.lookup name) x) :
    ((given absent check (entries.lookup name)).under (.field name)).Renewed (.field field :: path)
      ((given absent check ((Json.put field x entries).lookup name)).under (.field name)) := by
  by_cases hname : field = name
  · subst hname
    rw [Json.lookup_put_self]
    rcases h rfl with ⟨rfl, a, ha⟩ | ⟨u, hu, hrenewed⟩
    · exact (Check.Renewed.of_valid ha).under _
    · rw [hu]
      exact hrenewed.under _
  · rw [Json.lookup_put_of_ne (Ne.symm hname)]
    exact .elsewhere (fun h => hname (PathStep.field.inj h)) path _

theorem required_put {name field : String} {check : Value → Check α}
    (h : field = name → Renews check path (entries.lookup name) x) :
    (required name check entries).Renewed (.field field :: path)
      (required name check (Json.put field x entries)) := by
  rw [required_eq_given, required_eq_given]
  exact given_put _ h

theorem optional_put {name field : String} {default : α} {check : Value → Check α}
    (h : field = name → Renews check path (entries.lookup name) x) :
    (optional name default check entries).Renewed (.field field :: path)
      (optional name default check (Json.put field x entries)) := by
  rw [optional_eq_given, optional_eq_given]
  exact given_put _ h

/-! ## Lists -/

/-- One item of a list is checked anew. -/
theorem listOf_set {check : Store → Value → Check α} {items : List Value} {i : Nat} {u y : Value}
    (hv : σ.Sequence v items) (hw : σ.Sequence w (items.set i y)) (hu : items[i]? = some u)
    (h : (check σ u).Renewed path (check σ y)) :
    (listOf source check σ v).Renewed (.index i :: path) (listOf source check σ w) := by
  have hitems := Check.Renewed.each_set hu h 0
  rw [Nat.zero_add] at hitems
  rw [listOf, listOf, hv.listElements?, hw.listElements?]
  exact hitems

/-! ## Labels -/

/-- Whether a value, as a field of a label in place of another value or of none, is valid or is the
other checked anew. -/
inductive RenewsInLabel (source : Source) (σ : Store) (path : List PathStep) (old : Option Value)
    (x : Value) : (field : String) → Prop
  | style (renews : Renews (style σ) path old x) : RenewsInLabel source σ path old x "style"
  | file (renews : Renews Check.valid path old x) : RenewsInLabel source σ path old x "file_id"
  | range (renews : Renews (labelRange source σ) path old x) :
    RenewsInLabel source σ path old x "range"
  | message (renews : Renews (text σ) path old x) : RenewsInLabel source σ path old x "message"

theorem labelFields_put {field : String}
    (h : RenewsInLabel source σ path (entries.lookup field) x field) :
    (labelFields source σ entries).Renewed (.field field :: path)
      (labelFields source σ (Json.put field x entries)) := by
  refine ((required_put fun hfield => ?_).both ((required_put fun hfield => ?_).both
    ((required_put fun hfield => ?_).both (optional_put fun hfield => ?_)))).map _
  · cases h with
    | style renews => exact renews
    | _ => exact absurd hfield (by decide)
  · cases h with
    | file renews => exact renews
    | _ => exact absurd hfield (by decide)
  · cases h with
    | range renews => exact renews
    | _ => exact absurd hfield (by decide)
  · cases h with
    | message renews => exact renews
    | _ => exact absurd hfield (by decide)

/-- A label is checked anew by its fields. -/
theorem label_put {field : String} (hv : σ.cell? v = some (.table entries))
    (hw : σ.cell? w = some (.table (Json.put field x entries)))
    (h : RenewsInLabel source σ path (entries.lookup field) x field) :
    (label source σ v).Renewed (.field field :: path) (label source σ w) := by
  obtain ⟨l, rfl, hl⟩ := exists_of_cell? hv
  obtain ⟨k, rfl, hk⟩ := exists_of_cell? hw
  rw [label, label, record_of_table _ hl rfl, record_of_table _ hk rfl]
  exact (labelFields_put h).map _

/-! ## Diagnostics -/

/-- What is no one-shot sequence is the same object in akin stores. -/
theorem cell?_eq_of_listLike (h : σ.Akin τ) (hlike : σ.ListLike v) : σ.cell? v = τ.cell? v := by
  rcases h.cell? v with heq | ⟨us, _, hus, -⟩
  · exact heq
  · exact absurd hus (hlike.not_iterator us)

theorem text_of_akin (h : σ.Akin τ) (v : Value) : text σ v = text τ v := by
  rcases h.cell? v with heq | ⟨us, _, hus, hvs⟩
  · simp only [text, heq]
  · obtain ⟨l, rfl, -⟩ := exists_of_cell? hus
    simp only [text, hus, hvs, Value.asText?]

theorem listOf_text_of_akin (h : σ.Akin τ) (hv : σ.cell? v = τ.cell? v) :
    listOf source text σ v = listOf source text τ v := by
  have helements : (listElements? σ v = none ∧ listElements? τ v = none) ∨
      ∃ vs σ' τ', listElements? σ v = some (vs, σ') ∧ listElements? τ v = some (vs, τ') ∧
        σ'.Akin τ' := by
    rw [listElements?, listElements?, hv]
    split
    · exact .inl ⟨rfl, rfl⟩
    · exact .inl ⟨rfl, rfl⟩
    · exact h.elements? hv
    · exact .inl ⟨rfl, rfl⟩
  rcases helements with ⟨hσ, hτ⟩ | ⟨vs, σ', τ', hσ, hτ, hakin⟩
  · rw [listOf, listOf, hσ, hτ]
  · rw [listOf, listOf, hσ, hτ]
    simp only [funext (text_of_akin hakin)]

theorem spend_akin (check : Store → Value → Check α) (σ : Store) (v : Value) :
    σ.Akin (spend check σ v) := by
  rw [spend]
  split
  · exact .leave σ v _
  · exact .refl σ

theorem spendLabels_akin (source : Source) (σ : Store) (entries : List (String × Value)) :
    σ.Akin (spendLabels source σ entries) := by
  rw [spendLabels]
  split
  · exact spend_akin _ σ _
  · exact .refl σ

/-- The labels have no influence on the notes, unless both are one-shot sequences. -/
theorem notes_of_akin (h : σ.Akin τ)
    (hnotes : ∀ v, entries.lookup "notes" = some v → σ.cell? v = τ.cell? v) :
    notes source σ entries = notes source τ entries := by
  rw [notes, notes, optional, optional]
  rcases hv : entries.lookup "notes" with _ | v
  · rfl
  · exact congrArg (Check.under (.field "notes")) (listOf_text_of_akin h (hnotes v hv))

/-- Whether a value, as a field of a diagnostic in place of another value or of none, is valid or is
the other checked anew. -/
inductive RenewsInDiagnostic (source : Source) (σ : Store) (path : List PathStep)
    (old : Option Value) (x : Value) : (field : String) → Prop
  | severity (renews : Renews (severity σ) path old x) :
    RenewsInDiagnostic source σ path old x "severity"
  | code (renews : Renews (textOrNone σ) path old x) : RenewsInDiagnostic source σ path old x "code"
  | message (renews : Renews (text σ) path old x) :
    RenewsInDiagnostic source σ path old x "message"
  | labels (renews : Renews (listOf source (label source) σ) path old x) :
    RenewsInDiagnostic source σ path old x "labels"
  | notes (renews : Renews (listOf source text σ) path old x) :
    RenewsInDiagnostic source σ path old x "notes"

theorem diagnosticFields_put {field : String}
    (hlabels : ∀ v, entries.lookup "labels" = some v → σ.ListLike v)
    (hnotes : ∀ v, entries.lookup "notes" = some v → σ.ListLike v)
    (h : RenewsInDiagnostic source σ path (entries.lookup field) x field) :
    (diagnosticFields source σ entries).Renewed (.field field :: path)
      (diagnosticFields source σ (Json.put field x entries)) := by
  -- one of the two lists stays as it is, and with it the store in which the notes are checked
  have hspent : notes source σ (Json.put field x entries) =
      notes source (spendLabels source σ (Json.put field x entries)) (Json.put field x entries) := by
    by_cases hfield : field = "labels"
    · refine notes_of_akin (spendLabels_akin source σ _) fun v hv =>
        cell?_eq_of_listLike (spendLabels_akin source σ _) (hnotes v ?_)
      rwa [Json.lookup_put_of_ne (by rw [hfield]; decide)] at hv
    · rw [spendLabels_of_listLike fun v hv => hlabels v ?_]
      rwa [Json.lookup_put_of_ne (Ne.symm hfield)] at hv
  rw [diagnosticFields, diagnosticFields, spendLabels_of_listLike hlabels, ← hspent]
  refine ((required_put fun hfield => ?_).both ((optional_put fun hfield => ?_).both
    ((optional_put fun hfield => ?_).both ((optional_put fun hfield => ?_).both
      (optional_put fun hfield => ?_))))).map _
  · cases h with
    | severity renews => exact renews
    | _ => exact absurd hfield (by decide)
  · cases h with
    | code renews => exact renews
    | _ => exact absurd hfield (by decide)
  · cases h with
    | message renews => exact renews
    | _ => exact absurd hfield (by decide)
  · cases h with
    | labels renews => exact renews
    | _ => exact absurd hfield (by decide)
  · cases h with
    | notes renews => exact renews
    | _ => exact absurd hfield (by decide)

/-- A diagnostic is checked anew by its fields. -/
theorem diagnostic_put {field : String}
    (hlabels : ∀ v, entries.lookup "labels" = some v → σ.ListLike v)
    (hnotes : ∀ v, entries.lookup "notes" = some v → σ.ListLike v)
    (hv : σ.cell? v = some (.table entries))
    (hw : σ.cell? w = some (.table (Json.put field x entries)))
    (h : RenewsInDiagnostic source σ path (entries.lookup field) x field) :
    (diagnostic source σ v).Renewed (.field field :: path) (diagnostic source σ w) := by
  obtain ⟨l, rfl, hl⟩ := exists_of_cell? hv
  obtain ⟨k, rfl, hk⟩ := exists_of_cell? hw
  rw [diagnostic, diagnostic, record_of_table _ hl rfl, record_of_table _ hk rfl]
  exact (diagnosticFields_put hlabels hnotes h).map _

end Validation

end Diagnostics
