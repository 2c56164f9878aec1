import Diagnostics.Proofs.Exchange.Written
import Diagnostics.Proofs.Validation.Misfits

/-!
# What becomes of bad data

Reading is settled when it has a result, or fails with the issues of the data and logs so once
(`Outcome.IsSettled`). Whatever text is read and whatever plain data is given, reading is settled
but in one case: the range of a label is an array that is no pair (`reading_settledUnless_misfit`).
Then the failure to make a pair of it comes through as it is, and nothing is logged.
-/

namespace Diagnostics

/-! ## Settled outcomes -/

namespace Outcome

variable {α : Type} {o : Outcome α} {n : Nat}

/-- Whether an operation has a result, or fails with the issues of its data and one entry in the
log. -/
def IsSettled (o : Outcome α) : Prop :=
  (∃ a, o.result = .ok a) ∨
    ∃ title issues entry, o.result = .error (.invalid title issues) ∧ o.log = [entry]

/-- Whether an operation is settled but for a range that is no pair, with which it fails
unlogged. -/
structure SettledUnless (o : Outcome α) (misfit? : Option Nat) : Prop where
  isSettled_iff : o.IsSettled ↔ misfit? = none
  result_of_misfit : ∀ n, misfit? = some n → o.result = .error (.notAPair n) ∧ o.log = []

theorem IsSettled.settledUnless_none (h : o.IsSettled) : o.SettledUnless none :=
  ⟨⟨fun _ => rfl, fun _ => h⟩, fun _ hn => by cases hn⟩

theorem settledUnless_some (hresult : o.result = .error (.notAPair n)) (hlog : o.log = []) :
    o.SettledUnless (some n) := by
  refine ⟨⟨?_, fun h => by cases h⟩, ?_⟩
  -- being no pair is neither a result nor an issue
  · rintro (⟨a, ha⟩ | ⟨title, issues, entry, herror, -⟩)
    · rw [hresult] at ha
      cases ha
    · rw [hresult] at herror
      cases herror
  · rintro m hm
    cases hm
    exact ⟨hresult, hlog⟩

end Outcome

/-- A check whose failure is that of a misfit is valid or invalid without one. -/
theorem Check.cases_of_failure? {α : Type} {check : Check α} {misfit? : Option Nat}
    (h : check.failure? = misfit?.map .notAPair) :
    (∃ a, check = .valid a ∧ misfit? = none) ∨
      (∃ issues, check = .invalid issues ∧ misfit? = none) ∨
      ∃ n, check = .aborted (.notAPair n) ∧ misfit? = some n := by
  cases check with
  | valid a => exact .inl ⟨a, rfl, Option.map_eq_none_iff.1 h.symm⟩
  | invalid issues => exact .inr (.inl ⟨issues, rfl, Option.map_eq_none_iff.1 h.symm⟩)
  | aborted e =>
    obtain ⟨n, hn, rfl⟩ := Option.map_eq_some_iff.1 h.symm
    exact .inr (.inr ⟨n, rfl, hn⟩)

namespace Exchange

variable {σ : Store} {text : String}

/-! ## Summaries of new diagnostics -/

/-- What has been made of a draft has a summary, whatever the draft holds. -/
theorem exists_summary_newDiagnostic (σ : Store) (d : DiagnosticDraft) :
    ∃ x, (summary (σ.newDiagnostic d).1).perform (σ.newDiagnostic d).2 =
      (.ok x, (σ.newDiagnostic d).2) := by
  rw [Store.newDiagnostic]
  generalize σ.buildAll Store.newLabel d.labels = built
  obtain ⟨labels, τ⟩ := built
  have hlabels := τ.get?_alloc_self (.list labels)
  have hnotes := (τ.alloc (.list labels)).2.get?_alloc_self (.list (d.notes.map .text))
  exact ⟨_, summary_of_cells (Store.get?_alloc_self _ _)
    (Store.get?_alloc_of_get? _ (Store.get?_alloc_of_get? _ hlabels))
    (Store.get?_alloc_of_get? _ hnotes)⟩

/-- Nothing that exists already is found valid in what is made of JSON. -/
theorem exists_fresh_of_valid {source : Source} {v : Value} {j : Json} (h : σ.Shows v j)
    {d : Draft DiagnosticDraft} (hd : Validation.diagnostic source σ v = .valid d) :
    ∃ fields, d = .fresh fields := by
  cases j with
  | object es =>
    obtain ⟨l, ws, rfl, hl, -⟩ := h.exists_table
    rw [Validation.diagnostic, Validation.record_of_table _ hl rfl] at hd
    generalize Validation.diagnosticFields source σ ws = check at hd
    cases check with
    | valid fields => exact ⟨fields, (Check.valid.inj hd).symm⟩
    | invalid => cases hd
    | aborted => cases hd
  | _ =>
    rw [Validation.diagnostic, Validation.record_of_shows _ (fun _ => rfl) h (by simp)] at hd
    cases hd

/-! ## Reading -/

/-- What there is in the JSON of a text, if the text is of JSON at all. -/
def inText? (misfit? : Json → Option Nat) (text : String) : Option Nat :=
  match Json.read .standard text with
  | .ok j => misfit? j
  | .error _ => none

/-- A text that is refused is logged. -/
theorem isSettled_notLoaded (text title : String) (issues : List Issue) (σ : Store) :
    (notLoaded (.text text) title issues σ).IsSettled :=
  .inr ⟨title, issues, _, rfl, rfl⟩

theorem load_settledUnless_misfit (text : String) (σ : Store) :
    (load (.text text) σ).SettledUnless (inText? Json.misfit? text) := by
  rcases hread : Json.read .standard text with ⟨fault, position⟩ | j
  · simp only [inText?, hread, load, checkText_of_fault _ hread]
    exact (isSettled_notLoaded _ _ _ _).settledUnless_none
  simp only [inText?, hread, load, checkText_of_read _ hread]
  obtain ⟨-, hshows⟩ := ofJson_shows σ j
  generalize ofJson σ j = made at hshows ⊢
  obtain ⟨v, τ⟩ := made
  have hfailure := Validation.failure?_diagnostic .json hshows
  rcases Check.cases_of_failure? hfailure with ⟨d, hd, hj⟩ | ⟨issues, hd, hj⟩ | ⟨n, hd, hj⟩
  · -- what is valid is made anew, so that it has a summary
    obtain ⟨fields, rfl⟩ := exists_fresh_of_valid hshows hd
    obtain ⟨⟨level, labels, notes⟩, hsummary⟩ := exists_summary_newDiagnostic τ fields
    simp only [hd, hj, Draft.build, hsummary]
    exact Outcome.IsSettled.settledUnless_none (.inl ⟨_, rfl⟩)
  · simp only [hd, hj]
    exact (isSettled_notLoaded _ _ _ _).settledUnless_none
  · simp only [hd, hj]
    exact Outcome.settledUnless_some rfl rfl

theorem loadAll_settledUnless_misfit (text : String) (σ : Store) :
    (loadAll (.text text) σ).SettledUnless (inText? Json.misfitInList? text) := by
  rcases hread : Json.read .standard text with ⟨fault, position⟩ | j
  · simp only [inText?, hread, loadAll, checkText_of_fault _ hread]
    exact Outcome.IsSettled.settledUnless_none (.inr ⟨_, _, _, rfl, rfl⟩)
  simp only [inText?, hread, loadAll, checkText_of_read _ hread]
  obtain ⟨-, hshows⟩ := ofJson_shows σ j
  -- no summary is logged of a list, so it does not matter here what is valid
  have hfailure := Validation.failure?_diagnostics .json hshows
  rcases Check.cases_of_failure? hfailure with ⟨ds, hd, hj⟩ | ⟨issues, hd, hj⟩ | ⟨n, hd, hj⟩
  · simp only [hd, hj]
    exact Outcome.IsSettled.settledUnless_none (.inl ⟨_, rfl⟩)
  · simp only [hd, hj]
    exact Outcome.IsSettled.settledUnless_none (.inr ⟨_, _, _, rfl, rfl⟩)
  · simp only [hd, hj]
    exact Outcome.settledUnless_some rfl rfl

theorem ofPlain_settledUnless_misfit {v : Value} {d : Data} (hv : σ.view v = some d)
    (hd : d.IsNative) : (ofPlain v σ).SettledUnless d.json.misfit? := by
  have hfailure := Validation.failure?_diagnostic .values ⟨d, hv, hd.gives⟩
  simp only [ofPlain, Record.ofData, Record.buildDiagnostic, Action.perform, ExceptT.run,
    StateT.run]
  rcases Check.cases_of_failure? hfailure with ⟨x, hx, hj⟩ | ⟨issues, hx, hj⟩ | ⟨n, hx, hj⟩
  · simp only [hx, hj, Check.toExcept]
    exact Outcome.IsSettled.settledUnless_none (.inl ⟨_, rfl⟩)
  · simp only [hx, hj, Check.toExcept]
    exact Outcome.IsSettled.settledUnless_none (.inr ⟨_, _, _, rfl, rfl⟩)
  · simp only [hx, hj, Check.toExcept]
    exact Outcome.settledUnless_some rfl rfl

/-- **Bad data.** Reading a text, of one diagnostic or of a list, and taking plain data has a result
or fails with the issues of the data and one entry in the log, unless the range of a label is an
array but no pair. -/
theorem reading_settledUnless_misfit (σ : Store) :
    (∀ text, (load (.text text) σ).SettledUnless (inText? Json.misfit? text)) ∧
      (∀ text, (loadAll (.text text) σ).SettledUnless (inText? Json.misfitInList? text)) ∧
      ∀ v d, σ.view v = some d → d.IsNative → (ofPlain v σ).SettledUnless d.json.misfit? :=
  ⟨fun text => load_settledUnless_misfit text σ, fun text => loadAll_settledUnless_misfit text σ,
    fun _ _ hv hd => ofPlain_settledUnless_misfit hv hd⟩

/-- The text of an error with a label whose range has one bound. -/
def oneBound : String :=
  "\x7b\"severity\":\"error\",\"labels\":[" ++
    "\x7b\"style\":\"primary\",\"file_id\":0,\"range\":[1]\x7d]\x7d"

/-- The same as plain data. -/
def oneBoundData : Data :=
  .table [("severity", .text "error"), ("labels", .list [.table
    [("style", .text "primary"), ("file_id", .int 0), ("range", .list [.int 1])]])]

/-- The objects of that data. -/
def oneBoundStore : Store :=
  ⟨[.list [.int 1], .table [("style", .text "primary"), ("file_id", .int 0), ("range", .object 0)],
    .list [.object 1], .table [("severity", .text "error"), ("labels", .object 2)]], 0, [], {}⟩

theorem isNative_oneBoundData : oneBoundData.IsNative := by
  refine .table (List.forall_mem_cons.2 ⟨.text _, List.forall_mem_singleton.2 ?_⟩) (by decide)
  refine .list (List.forall_mem_singleton.2 (.table ?_ (by decide)))
  refine List.forall_mem_cons.2 ⟨.text _, List.forall_mem_cons.2 ⟨.int _, ?_⟩⟩
  exact List.forall_mem_singleton.2 (.list (List.forall_mem_singleton.2 (.int _)))

/-- A range of one bound comes through as a failure from texts and from plain data. -/
theorem reading_oneBound :
    (load (.text oneBound) .empty).result = .error (.notAPair 1) ∧
      (load (.text oneBound) .empty).log = [] ∧
      (ofPlain (.object 3) oneBoundStore).result = .error (.notAPair 1) ∧
      ¬ (ofPlain (.object 3) oneBoundStore).IsSettled := by
  have htext : inText? Json.misfit? oneBound = some 1 := by decide +kernel
  have hdata : oneBoundData.json.misfit? = some 1 := by decide +kernel
  obtain ⟨hload, -, -⟩ := reading_settledUnless_misfit .empty
  obtain ⟨-, -, hplain⟩ := reading_settledUnless_misfit oneBoundStore
  obtain ⟨hresult, hlog⟩ := (hload oneBound).result_of_misfit 1 htext
  have hgiven := hplain (.object 3) oneBoundData rfl isNative_oneBoundData
  refine ⟨hresult, hlog, (hgiven.result_of_misfit 1 hdata).1, fun h => ?_⟩
  rw [hgiven.isSettled_iff.1 h] at hdata
  cases hdata

end Exchange

end Diagnostics
