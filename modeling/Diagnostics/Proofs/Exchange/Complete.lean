import Diagnostics.Proofs.Exchange.Parsed
import Diagnostics.Proofs.Validation.Renewed

/-!
# Issues are complete and local

Plain data that is refused is refused with all that is wrong with it: each field adds the issues
that it has on its own, and no two issues are about the same place. So a place can be mended
by itself. With a valid value there (`Store.Suits`) the issues at the place and below it are gone,
all others stay in their order, and when none is left the data is taken (`ofPlain_mended`).
-/

namespace Diagnostics

variable {σ : Store} {v w a : Value} {path : List PathStep} {entries : List (String × Value)}

open Validation

namespace Store

/-- Whether a value is valid at a place: as a field of a diagnostic, as an item of its lists or as a
field of one of its labels. -/
inductive Suits (σ : Store) (a : Value) : List PathStep → Prop
  | severity {s : Severity} (valid : Validation.severity σ a = .valid s) :
    Suits σ a [.field "severity"]
  | code {s : Option String} (valid : textOrNone σ a = .valid s) : Suits σ a [.field "code"]
  | message {s : String} (valid : text σ a = .valid s) : Suits σ a [.field "message"]
  | labels {ds : List (Draft LabelDraft)}
    (valid : listOf .values (Validation.label .values) σ a = .valid ds) :
    Suits σ a [.field "labels"]
  | notes {ss : List String} (valid : listOf .values text σ a = .valid ss) :
    Suits σ a [.field "notes"]
  | label {i : Nat} {d : Draft LabelDraft} (valid : Validation.label .values σ a = .valid d) :
    Suits σ a [.field "labels", .index i]
  | labelStyle {i : Nat} {s : LabelStyle} (valid : style σ a = .valid s) :
    Suits σ a [.field "labels", .index i, .field "style"]
  | labelFile {i : Nat} : Suits σ a [.field "labels", .index i, .field "file_id"]
  | labelRange {i : Nat} {d : Draft ByteRange}
    (valid : Validation.labelRange .values σ a = .valid d) :
    Suits σ a [.field "labels", .index i, .field "range"]
  | labelMessage {i : Nat} {s : String} (valid : text σ a = .valid s) :
    Suits σ a [.field "labels", .index i, .field "message"]
  | note {i : Nat} {s : String} (valid : text σ a = .valid s) :
    Suits σ a [.field "notes", .index i]

/-- Whether the labels and the notes in a table are lists or tuples, as far as they can be read as
lists. -/
def HasListLike (σ : Store) (entries : List (String × Value)) : Prop :=
  (∀ v, entries.lookup "labels" = some v → σ.ListLike v) ∧
    ∀ v, entries.lookup "notes" = some v → σ.ListLike v

/-- A field is written in a table. -/
theorem Written.exists_put {name : String} (h : σ.Written a (.field name :: path) v w) :
    ∃ es x, σ.cell? v = some (.table es) ∧ σ.cell? w = some (.table (Json.put name x es)) ∧
      ((path = [] ∧ x = a) ∨ ∃ u, es.lookup name = some u ∧ σ.Written a path u x) := by
  cases h with
  | entry cell written => exact ⟨_, _, cell, written, .inl ⟨rfl, rfl⟩⟩
  | field cell value inner written => exact ⟨_, _, cell, written, .inr ⟨_, value, inner⟩⟩

/-- An item is written in a list or a tuple, where nothing else is read as a list. -/
theorem Written.exists_set {i : Nat} (hlike : σ.ListLike v)
    (h : σ.Written a (.index i :: path) v w) :
    ∃ items u x, σ.Sequence v items ∧ σ.Sequence w (items.set i x) ∧ items[i]? = some u ∧
      σ.Written a path u x := by
  cases h with
  | item row cell item inner written =>
    cases row with
    | list => exact ⟨_, _, _, .list cell, .list written, item, inner⟩
    | tuple => exact ⟨_, _, _, .tuple cell, .tuple written, item, inner⟩
    | iterator => exact absurd cell (hlike.not_iterator _)

/-- At the end of a path there is the value that is written. -/
theorem Written.eq_of_here (h : σ.Written a [] v w) : w = a := by
  cases h
  rfl

end Store

namespace Validation

/-- What is written as a field: the value itself, or the value there with something written below. -/
def WrittenAs (σ : Store) (a : Value) (path : List PathStep) (old : Option Value) (x : Value) :
    Prop :=
  (path = [] ∧ x = a) ∨ ∃ u, old = some u ∧ σ.Written a path u x

theorem renews_of_valid {α : Type} {check : Value → Check α} {old : Option Value} {x : Value}
    {c : α} (hvalid : check a = .valid c) (h : WrittenAs σ a [] old x) : Renews check [] old x := by
  have hx : x = a := by
    rcases h with ⟨-, hx⟩ | ⟨u, -, hu⟩
    · exact hx
    · exact hu.eq_of_here
  exact .inl ⟨rfl, c, hx ▸ hvalid⟩

/-- A list is checked anew by the item in which something is written. -/
theorem renews_of_item {α : Type} {source : Source} {check : Store → Value → Check α} {i : Nat}
    {old : Option Value} {x : Value}
    (hlike : ∀ u, old = some u → σ.ListLike u)
    (hitem : ∀ u y, σ.Written a path u y → (check σ u).Renewed path (check σ y))
    (h : WrittenAs σ a (.index i :: path) old x) :
    Renews (listOf source check σ) (.index i :: path) old x := by
  rcases h with ⟨hpath, -⟩ | ⟨u, hu, hwritten⟩
  · cases hpath
  · obtain ⟨items, y, z, hold, hnew, hi, hyz⟩ := hwritten.exists_set (hlike u hu)
    exact .inr ⟨u, hu, listOf_set hold hnew hi (hitem y z hyz)⟩

/-- A label is checked anew by the field that is written. -/
theorem label_renewed {name : String} (h : σ.Written a [.field name] v w)
    (hfield : ∀ old x, WrittenAs σ a [] old x → RenewsInLabel .values σ [] old x name) :
    (label .values σ v).Renewed [.field name] (label .values σ w) := by
  obtain ⟨es, x, hv, hw, hplace⟩ := h.exists_put
  exact label_put hv hw (hfield _ x hplace)

/-- A diagnostic is checked anew by the place at which a valid value is written. -/
theorem diagnostic_renewed (hdata : σ.cell? v = some (.table entries))
    (hlists : σ.HasListLike entries) (hsuits : σ.Suits a path) (h : σ.Written a path v w) :
    (diagnostic .values σ v).Renewed path (diagnostic .values σ w) := by
  -- whatever the place is, it lies in one of the fields
  have field {name : String} {rest : List PathStep} (hwritten : σ.Written a (.field name :: rest) v w)
      (hfield : ∀ x, WrittenAs σ a rest (entries.lookup name) x →
        RenewsInDiagnostic .values σ rest (entries.lookup name) x name) :
      (diagnostic .values σ v).Renewed (.field name :: rest) (diagnostic .values σ w) := by
    obtain ⟨es, x, hv, hw, hplace⟩ := hwritten.exists_put
    obtain rfl : entries = es := by
      rw [hdata] at hv
      exact Cell.table.inj (Option.some.inj hv)
    exact diagnostic_put hlists.1 hlists.2 hv hw (hfield x hplace)
  cases hsuits with
  | severity valid => exact field h fun _ hx => .severity (renews_of_valid valid hx)
  | code valid => exact field h fun _ hx => .code (renews_of_valid valid hx)
  | message valid => exact field h fun _ hx => .message (renews_of_valid valid hx)
  | labels valid => exact field h fun _ hx => .labels (renews_of_valid valid hx)
  | notes valid => exact field h fun _ hx => .notes (renews_of_valid valid hx)
  | label valid =>
    refine field h fun _ hx => .labels (renews_of_item hlists.1 (fun u y huy => ?_) hx)
    exact .of_valid (huy.eq_of_here ▸ valid)
  | labelStyle valid =>
    refine field h fun _ hx => .labels (renews_of_item hlists.1 (fun u y huy => ?_) hx)
    exact label_renewed huy fun _ _ hx => .style (renews_of_valid valid hx)
  | labelFile =>
    refine field h fun _ hx => .labels (renews_of_item hlists.1 (fun u y huy => ?_) hx)
    exact label_renewed huy fun _ _ hx => .file (renews_of_valid rfl hx)
  | labelRange valid =>
    refine field h fun _ hx => .labels (renews_of_item hlists.1 (fun u y huy => ?_) hx)
    exact label_renewed huy fun _ _ hx => .range (renews_of_valid valid hx)
  | labelMessage valid =>
    refine field h fun _ hx => .labels (renews_of_item hlists.1 (fun u y huy => ?_) hx)
    exact label_renewed huy fun _ _ hx => .message (renews_of_valid valid hx)
  | note valid =>
    refine field h fun _ hx => .notes (renews_of_item hlists.2 (fun u y huy => ?_) hx)
    exact .of_valid (huy.eq_of_here ▸ valid)

end Validation

namespace Exchange

theorem ofPlain_of_found {d : Draft DiagnosticDraft} (h : diagnostic .values σ v = .valid d) :
    ∃ u, (ofPlain v σ).result = .ok u := by
  simp only [ofPlain, Record.ofData, Record.buildDiagnostic, Action.perform, ExceptT.run,
    StateT.run, h, Check.toExcept]
  exact ⟨_, rfl⟩

theorem ofPlain_of_error {e : Failure}
    (h : (diagnostic .values σ v).toExcept "Diagnostic" = .error e) :
    (ofPlain v σ).result = .error e := by
  simp only [ofPlain, Record.ofData, Record.buildDiagnostic, Action.perform, ExceptT.run,
    StateT.run, h]
  cases e <;> rfl

/-- Data that is refused with issues has been checked to have them. -/
theorem diagnostic_of_refused {title : String} {issues : List Issue}
    (h : (ofPlain v σ).result = .error (.invalid title issues)) :
    title = "Diagnostic" ∧ issues ≠ [] ∧ diagnostic .values σ v = .invalid issues := by
  have hproper : (diagnostic .values σ v).Proper := record_proper diagnosticFields_proper σ v
  generalize hcheck : diagnostic .values σ v = check at hproper
  cases hproper with
  | valid d =>
    obtain ⟨u, hu⟩ := ofPlain_of_found hcheck
    cases hu.symm.trans h
  | invalid nonempty =>
    cases (ofPlain_of_invalid hcheck).symm.trans h
    exact ⟨rfl, nonempty, rfl⟩
  | aborted other =>
    have hresult := ofPlain_of_error (σ := σ) (v := v) (by rw [hcheck]; rfl)
    exact absurd (Except.error.inj (hresult.symm.trans h)) (other _ _)

/-- **Issues.** Plain data that is refused with issues has at least one, no two at the same place,
and they are those that each field has on its own. With a valid value written at some place, those
at the place and below it are gone and all others are left, and without any the data is taken. -/
theorem ofPlain_mended {title : String} {issues : List Issue}
    (hdata : σ.cell? v = some (.table entries)) (hlists : σ.HasListLike entries)
    (hrefused : (ofPlain v σ).result = .error (.invalid title issues)) :
    title = "Diagnostic" ∧ issues ≠ [] ∧ (issues.map Issue.path).Nodup ∧
      issues = diagnosticIssues .values σ entries ∧
      ∀ path a w, σ.Suits a path → σ.Written a path v w →
        (Issue.outside path issues = [] → ∃ u, (ofPlain w σ).result = .ok u) ∧
        (Issue.outside path issues ≠ [] → (ofPlain w σ).result =
          .error (.invalid "Diagnostic" (Issue.outside path issues))) := by
  obtain ⟨htitle, hne, hcheck⟩ := diagnostic_of_refused hrefused
  have hissues : issues = diagnosticIssues .values σ entries := by
    obtain ⟨l, rfl, hl⟩ := Store.exists_of_cell? hdata
    have hfields := hcheck
    rw [diagnostic, record_of_table _ hl rfl] at hfields
    have hnone : (diagnosticFields .values σ entries).failure? = none := by
      rw [← Check.failure?_map Draft.fresh, hfields]
      rfl
    rw [← issues_diagnosticFields hlists.1 hlists.2 hnone, ← Check.issues_map _ Draft.fresh, hfields]
    rfl
  refine ⟨htitle, hne, hissues ▸ diagnosticIssues_distinct entries, hissues, ?_⟩
  intro path a w hsuits hwritten
  obtain ⟨hnone, hrest⟩ := diagnostic_renewed hdata hlists hsuits hwritten (by rw [hcheck]; rfl)
  rw [hcheck, Check.issues] at hrest
  have hproper : (diagnostic .values σ w).Proper := record_proper diagnosticFields_proper σ w
  rw [← hrest]
  rcases hproper.cases_of_failure? hnone with ⟨hnil, d, hd⟩ | ⟨hne, hinvalid⟩
  · exact ⟨fun _ => ofPlain_of_found hd, fun hsome => absurd hnil hsome⟩
  · exact ⟨fun hnil => absurd hnil hne, fun _ => ofPlain_of_invalid hinvalid⟩

/-- Data with a level and a label that are both wrong, the label in its style and in both ends of its
range, and the same data with another range. -/
def manyFaults : Store where
  cells := [.list [.int (-1), .text "x"],
    .table [("style", .none), ("file_id", .int 0), ("range", .object 0)],
    .list [.object 1],
    .table [("severity", .text "fatal"), ("labels", .object 2)],
    .tuple [.int 0, .int 4],
    .table [("style", .none), ("file_id", .int 0), ("range", .object 4)],
    .list [.object 5],
    .table [("severity", .text "fatal"), ("labels", .object 6)]]
  nans := 0
  carried := []

/-- With the other range its two issues are gone, and those before it are left. -/
theorem ofPlain_mended_manyFaults :
    (ofPlain (.object 3) manyFaults).result = .error (.invalid "Diagnostic"
      [⟨[.field "severity"], .notAWord ["help", "note", "warning", "error", "bug"]⟩,
        ⟨[.field "labels", .index 0, .field "style"], .notAWord ["primary", "secondary"]⟩,
        ⟨[.field "labels", .index 0, .field "range", .field "start"], .negative⟩,
        ⟨[.field "labels", .index 0, .field "range", .field "end"], .unreadableInteger⟩]) ∧
    (ofPlain (.object 7) manyFaults).result = .error (.invalid "Diagnostic"
      [⟨[.field "severity"], .notAWord ["help", "note", "warning", "error", "bug"]⟩,
        ⟨[.field "labels", .index 0, .field "style"], .notAWord ["primary", "secondary"]⟩]) := by
  have hlists : manyFaults.HasListLike [("severity", .text "fatal"), ("labels", .object 2)] := by
    refine ⟨fun v hv => ?_, nofun⟩
    obtain rfl := Option.some.inj hv
    exact .inl ⟨_, .list rfl⟩
  have hwritten : manyFaults.Written (.object 4)
      [.field "labels", .index 0, .field "range"] (.object 3) (.object 7) :=
    .field rfl rfl (.item .list rfl rfl (.entry rfl rfl) rfl) rfl
  refine ⟨rfl, ?_⟩
  exact ((ofPlain_mended rfl hlists rfl).2.2.2.2 _ _ _ (.labelRange rfl) hwritten).2 (by decide)

end Exchange

end Diagnostics
