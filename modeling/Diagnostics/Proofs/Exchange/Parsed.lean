import Diagnostics.Proofs.Exchange.Settled
import Diagnostics.Proofs.Validation.Agreement
import Diagnostics.Proofs.Validation.Built

/-!
# Reading a text is taking the value in it

A diagnostic that is read from a text and one that is taken from the plain data in that text come to
the same (`load_endsLike_ofPlain`): the same diagnostic, the same kinds of issues at the same
places, or the same failure. The two checks differ only in how they word what they find. A text that
is no JSON has one issue, with the text as a whole.
-/

namespace Diagnostics

/-- What is wrong and where, without its wording. -/
def Issue.mark (i : Issue) : String × List PathStep := (i.kind.code, i.path)

theorem Issue.map_mark_eq {s t : Source} {is js : List Issue}
    (h : List.Forall₂ (Issue.Agree s t) is js) : is.map Issue.mark = js.map Issue.mark := by
  induction h with
  | nil => rfl
  | cons hij _ ih =>
    rw [List.map_cons, List.map_cons, ih, Issue.mark, Issue.mark, hij.1, hij.2.code_eq]

/-- Two ways to read a diagnostic that end alike: with diagnostics that show the same but for marks,
with the same issues but for their wording, or with the failure of the same range that is no pair. -/
inductive Outcome.EndsLike (o p : Outcome Value) : Prop where
  | diagnostics {v w : Value} {a b : DiagnosticContent} (left : o.result = .ok v)
    (right : p.result = .ok w) (leftView : o.store.view v = some a.data)
    (rightView : p.store.view w = some b.data) (same : a.data.unmarked = b.data.unmarked)
  | issues {is js : List Issue} (left : o.result = .error (.invalid "Diagnostic" is))
    (right : p.result = .error (.invalid "Diagnostic" js))
    (same : is.map Issue.mark = js.map Issue.mark)
  | misfit (n : Nat) (left : o.result = .error (.notAPair n))
    (right : p.result = .error (.notAPair n))

namespace Exchange

variable {σ : Store} {v : Value} {text : String} {j : Json}

/-! ## Outcomes by the check -/

/-- What is drafted from the value in a text is read. -/
theorem load_of_valid (hread : Json.read .standard text = .ok j) (σ : Store)
    {d : Draft DiagnosticDraft} {c : DiagnosticContent}
    (hvalid : Validation.diagnostic .json (ofJson σ j).2 (ofJson σ j).1 = .valid d)
    (hdraft : c.IsDraft (ofJson σ j).2 d) :
    ∃ v, (load (.text text) σ).result = .ok v ∧
      (load (.text text) σ).store.view v = some c.data := by
  obtain ⟨-, hview⟩ := Store.newDiagnostic_of_isDraft hdraft
  simp only [load, checkText_of_read _ hread, hvalid, summary_of_view hview]
  exact ⟨_, rfl, hview⟩

theorem load_of_invalid (hread : Json.read .standard text = .ok j) (σ : Store) {is : List Issue}
    (hinvalid : Validation.diagnostic .json (ofJson σ j).2 (ofJson σ j).1 = .invalid is) :
    (load (.text text) σ).result = .error (.invalid "Diagnostic" is) := by
  simp only [load, checkText_of_read _ hread, hinvalid]
  rfl

theorem load_of_aborted (hread : Json.read .standard text = .ok j) (σ : Store) {e : Failure}
    (haborted : Validation.diagnostic .json (ofJson σ j).2 (ofJson σ j).1 = .aborted e) :
    (load (.text text) σ).result = .error e := by
  simp only [load, checkText_of_read _ hread, haborted]

/-- A text that is no JSON is refused as a whole. -/
theorem load_of_fault {fault : Json.Fault} {position : Json.Position}
    (hread : Json.read .standard text = .error (fault, position)) (σ : Store) :
    (load (.text text) σ).result =
      .error (.invalid "Diagnostic" [⟨[], .malformedJson fault position⟩]) := by
  simp only [load, checkText_of_fault _ hread]
  rfl

/-- Taking plain data that shows JSON uses nothing up. -/
theorem spendDiagnostic_of_shows (source : Source) (hv : σ.Shows v j) :
    Validation.spendDiagnostic source σ v = σ := by
  cases j with
  | object es =>
    obtain ⟨l, vs, rfl, hl, hvs⟩ := hv.exists_table
    simp only [Validation.spendDiagnostic, Store.cell?, hl, Validation.spendFields,
      Validation.spendLabels_of_shows source hvs]
    rcases hlookup : es.lookup "notes" with _ | i
    · rw [Store.lookup_eq_none_of_shows hvs hlookup]
      exact ite_self σ
    · obtain ⟨w, hw, hshows⟩ := Store.exists_lookup_of_shows hvs "notes" hlookup
      rw [hw]
      simp only [Validation.spend_of_shows _ hshows, ite_self]
  | array js =>
    obtain ⟨l, vs, rfl, hl, -⟩ := hv.exists_list
    simp only [Validation.spendDiagnostic, Store.cell?, hl]
  | _ => simp only [Validation.spendDiagnostic, hv.cell?_eq_none (by simp) (by simp)]

/-- What is drafted from plain data is taken. -/
theorem ofPlain_of_valid (hv : σ.Shows v j) {d : Draft DiagnosticDraft} {c : DiagnosticContent}
    (hvalid : Validation.diagnostic .values σ v = .valid d) (hdraft : c.IsDraft σ d) :
    ∃ w τ, ofPlain v σ = ⟨.ok w, τ, []⟩ ∧ σ.Grows τ ∧ τ.view w = some c.data := by
  obtain ⟨hgrows, hview⟩ := Store.newDiagnostic_of_isDraft hdraft
  refine ⟨_, _, ?_, hgrows, hview⟩
  simp only [ofPlain, Record.ofData, Record.buildDiagnostic, Action.perform, ExceptT.run,
    StateT.run, spendDiagnostic_of_shows _ hv, hvalid, Check.toExcept]

theorem ofPlain_of_invalid {is : List Issue}
    (hinvalid : Validation.diagnostic .values σ v = .invalid is) :
    (ofPlain v σ).result = .error (.invalid "Diagnostic" is) := by
  simp only [ofPlain, Record.ofData, Record.buildDiagnostic, Action.perform, ExceptT.run,
    StateT.run, hinvalid, Check.toExcept]

theorem ofPlain_of_misfit {n : Nat}
    (haborted : Validation.diagnostic .values σ v = .aborted (.notAPair n)) :
    (ofPlain v σ).result = .error (.notAPair n) := by
  simp only [ofPlain, Record.ofData, Record.buildDiagnostic, Action.perform, ExceptT.run,
    StateT.run, haborted, Check.toExcept]

/-! ## Texts and the values in them -/

/-- **Texts and values.** Reading a text ends like taking any plain data that shows the JSON in it,
whatever the text and whatever there is in the stores. A text without JSON is refused as such. -/
theorem load_endsLike_ofPlain (text : String) (σ : Store) :
    (∀ j, Json.read .standard text = .ok j → ∀ (τ : Store) (v : Value), τ.Shows v j →
        (load (.text text) σ).EndsLike (ofPlain v τ)) ∧
      ∀ fault, Json.read .standard text = .error fault →
        ∃ issue, (load (.text text) σ).result = .error (.invalid "Diagnostic" [issue]) ∧
          issue.mark = ("json_invalid", []) := by
  constructor
  · intro j hread τ v hv
    obtain ⟨-, hmade⟩ := ofJson_shows σ j
    have hagree := Validation.diagnostic_agrees .json .values hmade hv
    generalize hleft : Validation.diagnostic .json (ofJson σ j).2 (ofJson σ j).1 = left at hagree
    generalize hright : Validation.diagnostic .values τ v = right at hagree
    cases hagree with
    | valid related =>
      obtain ⟨a, b, ha, hb, hsame⟩ := related
      obtain ⟨x, hx, hxview⟩ := load_of_valid hread σ hleft ha
      obtain ⟨y, ρ, hy, -, hyview⟩ := ofPlain_of_valid hv hright hb
      rw [hy]
      exact .diagnostics hx rfl hxview hyview hsame
    | invalid issues =>
      exact .issues (load_of_invalid hread σ hleft) (ofPlain_of_invalid hright)
        (Issue.map_mark_eq issues)
    | aborted e =>
      -- what is made of JSON ends a check in one way only
      have hfailure := Validation.failure?_diagnostic .values hv
      rw [hright] at hfailure
      obtain ⟨n, -, rfl⟩ := Option.map_eq_some_iff.1 hfailure.symm
      exact .misfit n (load_of_aborted hread σ hleft) (ofPlain_of_misfit hright)
  · rintro ⟨fault, position⟩ hread
    refine ⟨⟨[], .malformedJson fault position⟩, ?_, rfl⟩
    simp only [load, checkText_of_fault _ hread]
    rfl

/-- An error that is first said to be a note, with a label in a file that is no number. -/
def twiceLevelled : String :=
  "\x7b\"severity\":\"note\",\"labels\":[" ++
    "\x7b\"style\":\"primary\",\"file_id\":NaN,\"range\":[1,\"2\"]\x7d],\"severity\":\"error\"\x7d"

/-- What counts in that text. -/
def twiceLevelledJson : Json :=
  .object [("severity", .text "error"), ("labels", .array [.object
    [("style", .text "primary"), ("file_id", .real (.nan 0)),
      ("range", .array [.int 1, .text "2"])]])]

/-- Of two levels the last one counts, in the text as in the data; half a list is no JSON. -/
theorem load_twiceLevelled :
    (load (.text twiceLevelled) .empty).EndsLike
        (ofPlain (ofJson .empty twiceLevelledJson).1 (ofJson .empty twiceLevelledJson).2) ∧
      ∃ issue, (load (.text "[1") .empty).result = .error (.invalid "Diagnostic" [issue]) ∧
        issue.mark = ("json_invalid", []) := by
  have hread : Json.read .standard twiceLevelled = .ok twiceLevelledJson := by decide +kernel
  have hfault : Json.read .standard "[1" = .error (.endInList, ⟨1, 2⟩) := by decide +kernel
  obtain ⟨-, hshows⟩ := ofJson_shows .empty twiceLevelledJson
  exact ⟨(load_endsLike_ofPlain twiceLevelled .empty).1 _ hread _ _ hshows,
    (load_endsLike_ofPlain "[1" .empty).2 _ hfault⟩

end Exchange

end Diagnostics
