import Diagnostics.Proofs.Exchange.Elementwise
import Diagnostics.Proofs.Exchange.RoundTrip
import Diagnostics.Proofs.Exchange.WellFormed

/-!
# Log lines tell the truth

What an exchange logs depends on how it ends (`Outcome.Logs`): something about what it gives,
something about the issues of its data, and nothing when it fails in any other way. The counts in an
entry are those of the diagnostic that was written or read, of its text, or of the issues with it.

A list is the exception: it is logged when its diagnostics have been converted, so the entry is there
even if their JSON cannot be written (`dumpAll_logs`).

In a session only a transfer logs anything, and no more than one entry
(`exists_transfer_of_log_ne_nil`). What is no transfer is an action, and the outcome of an action has
an empty log by definition (`Action.outcome`).
-/

namespace Diagnostics

open Diagnostics.Action

/-- Whether an operation logs what goes with its end: with what it gives, with the issues of its data,
and nothing where it fails in any other way. -/
structure Outcome.Logs {α : Type} (o : Outcome α) (given : α → List LogEntry → Prop)
    (refused : String → List Issue → List LogEntry) : Prop where
  ok : ∀ a, o.result = .ok a → given a o.log
  invalid : ∀ title issues, o.result = .error (.invalid title issues) → o.log = refused title issues
  other : ∀ e, o.result = .error e → (∀ title issues, e ≠ .invalid title issues) → o.log = []

namespace Outcome

variable {α : Type} {o : Outcome α} {given : α → List LogEntry → Prop}
  {refused : String → List Issue → List LogEntry}

theorem logs_of_ok {a : α} (hresult : o.result = .ok a) (hlog : given a o.log) :
    o.Logs given refused := by
  refine ⟨fun b hb => ?_, fun title issues h => ?_, fun e h => ?_⟩
  · cases hresult.symm.trans hb
    exact hlog
  · cases hresult.symm.trans h
  · cases hresult.symm.trans h

theorem logs_of_invalid {title : String} {issues : List Issue}
    (hresult : o.result = .error (.invalid title issues)) (hlog : o.log = refused title issues) :
    o.Logs given refused := by
  refine ⟨fun b hb => ?_, fun title issues h => ?_, fun e h hother => ?_⟩
  · cases hresult.symm.trans hb
  · cases hresult.symm.trans h
    exact hlog
  · cases hresult.symm.trans h
    exact absurd rfl (hother title issues)

theorem logs_of_other {e : Failure} (hresult : o.result = .error e)
    (hother : ∀ title issues, e ≠ .invalid title issues) (hlog : o.log = []) :
    o.Logs given refused := by
  refine ⟨fun b hb => ?_, fun title issues h => ?_, fun _ _ _ => hlog⟩
  · cases hresult.symm.trans hb
  · cases hresult.symm.trans h
    exact absurd rfl (hother title issues)

/-- What is logged about no failure is logged about none. -/
theorem logs_of_error {e : Failure} (hresult : o.result = .error e) (hlog : o.log = []) :
    o.Logs given fun _ _ => [] := by
  refine ⟨fun b hb => ?_, fun _ _ _ => hlog, fun _ _ _ => hlog⟩
  cases hresult.symm.trans hb

end Outcome

/-- Every entry is for those who look for defects. -/
theorem LogEntry.line_debug (entry : LogEntry) : "DEBUG ".toList <+: entry.line.toList := by
  unfold line
  cases entry <;> simp

namespace Exchange

variable {σ : Store} {v : Value} {j : Json}

/-! ## Writing leaves stores as they are -/

theorem isReading_writable (v : Value) (operation : String) : (writable v operation).IsReading := by
  refine IsReading.bind (fun _ => rfl) fun c? => ?_
  split
  · split
    · exact fun _ => rfl
    · exact isReading_noAttribute v _
  · exact isReading_noAttribute v _

theorem isReading_toJson (config : Config) (v : Value) : (toJson config v).IsReading := by
  refine (isReading_writable v _).bind fun _ => (isReading_view v).bind fun d => ?_
  split
  · exact fun _ => rfl
  · split <;> exact fun _ => rfl

theorem isReading_dumpText (config : Config) (v : Value) : (dumpText config v).IsReading := by
  rw [dumpText]
  split
  on_goal 1 => refine (Attribute.isReading_stored v _).bind fun code => ?_
  -- what follows is the same whether the code was looked for or not
  all_goals
    refine IsReading.bind (fun _ => rfl) fun omitted => (isReading_writable v _).bind fun _ => ?_
    refine IsReading.bind (fun _ => rfl) fun indent? => (isReading_view v).bind fun d => ?_
    split <;> exact fun _ => rfl

/-! ## Writing -/

/-- One diagnostic is logged when its text is complete, with its counts and that of the text. -/
theorem dump_logs (config : Config) {l k m : Loc} {s : Severity} {code message : Value}
    {ls ns : List Value}
    (hl : σ.get? l = some (.diagnostic ⟨.severity s, code, message, .object k, .object m⟩))
    (hk : σ.get? k = some (.list ls)) (hm : σ.get? m = some (.list ns)) :
    (dump config (.object l) σ).Logs
      (fun text log => log = [.serialized s.word ls.length ns.length text.length])
      fun _ _ => [] := by
  have htext := (isReading_dumpText config (.object l)).perform_eq σ
  rcases hresult : ((dumpText config (.object l)).perform σ).1 with e | text
  · rw [hresult] at htext
    rw [dump, perform_bind_of_error _ htext]
    exact Outcome.logs_of_error rfl rfl
  · rw [hresult] at htext
    rw [dump, perform_bind_of_ok _ htext, perform_bind_of_ok _ (summary_of_cells hl hk hm)]
    exact Outcome.logs_of_ok rfl rfl

/-- Diagnostics are converted one by one, up to the first that cannot be. -/
theorem toJsons_cases (config : Config) (vs : List Value) (σ : Store) :
    (∃ js, (toJsons config vs).perform σ = (.ok js, σ) ∧
      List.Forall₂ (fun v j => (toJson config v).perform σ = (.ok j, σ)) vs js) ∨
    ∃ v ∈ vs, ∃ e, (toJson config v).perform σ = (.error e, σ) ∧
      (toJsons config vs).perform σ = (.error e, σ) := by
  induction vs with
  | nil => exact .inl ⟨[], rfl, .nil⟩
  | cons v vs ih =>
    have hv := (isReading_toJson config v).perform_eq σ
    rcases hresult : ((toJson config v).perform σ).1 with e | j
    · rw [hresult] at hv
      refine .inr ⟨v, List.mem_cons_self, e, hv, ?_⟩
      rw [toJsons, perform_bind_of_error _ hv]
    · rw [hresult] at hv
      rcases ih with ⟨js, hjs, hall⟩ | ⟨w, hw, e, he, hmore⟩
      · refine .inl ⟨j :: js, ?_, .cons hv hall⟩
        rw [toJsons, perform_bind_of_ok _ hv, perform_bind_of_ok _ hjs]
        rfl
      · refine .inr ⟨w, List.mem_cons_of_mem v hw, e, he, ?_⟩
        rw [toJsons, perform_bind_of_ok _ hv, perform_bind_of_error _ hmore]

/-- A list is logged when all its diagnostics are converted, whatever becomes of their JSON. -/
theorem dumpAll_logs (config : Config) {l : Loc} {vs : List Value}
    (hl : σ.get? l = some (.list vs)) :
    (∃ js, List.Forall₂ (fun v j => (toJson config v).perform σ = (.ok j, σ)) vs js ∧
      dumpAll config (.object l) σ = ⟨listText config js, σ, [.serializing vs.length]⟩) ∨
    ∃ v ∈ vs, ∃ e, (toJson config v).perform σ = (.error e, σ) ∧
      dumpAll config (.object l) σ = ⟨.error e, σ, []⟩ := by
  have htake := perform_takeAll_list hl
  rcases toJsons_cases config vs σ with ⟨js, hjs, hall⟩ | ⟨v, hv, e, he, hfails⟩
  · refine .inl ⟨js, hall, ?_⟩
    rw [dumpAll, perform_bind_of_ok _ htake, hjs, hall.length_eq]
  · refine .inr ⟨v, hv, e, he, ?_⟩
    rw [dumpAll, perform_bind_of_ok _ htake, hfails]

/-! ## Reading -/

/-- What is found valid in what is made of JSON is the draft of a diagnostic. -/
theorem exists_isDraft_of_valid {d : Draft DiagnosticDraft} (h : σ.Shows v j)
    (hd : Validation.diagnostic .json σ v = .valid d) :
    ∃ c : DiagnosticContent, c.IsDraft σ d := by
  have hagree := Validation.diagnostic_agrees .json .json h h
  rw [hd] at hagree
  cases hagree with
  | valid related =>
    obtain ⟨c, -, hc, -⟩ := related
    exact ⟨c, hc⟩

theorem exists_areDrafts_of_valid {ds : List (Draft DiagnosticDraft)} (h : σ.Shows v j)
    (hds : Validation.listOf .json (Validation.diagnostic .json) σ v = .valid ds) :
    ∃ cs, List.Forall₂ (DiagnosticContent.IsDraft σ) cs ds := by
  have hagree := Validation.listOf_agrees .json .json
    (fun _ _ _ _ => Validation.diagnostic_agrees_of_similar .json .json) (.refl _ _) h h
  rw [hds] at hagree
  cases hagree with
  | valid related =>
    obtain ⟨cs, hcs, -⟩ := forall₂_exists_iff.1 (related.imp
      fun d e ⟨c, _, hc, _, _⟩ => (⟨c, hc, trivial⟩ : ∃ c, c.IsDraft σ d ∧ True))
    exact ⟨cs, hcs.flip⟩

/-- One diagnostic that is read is logged with its counts, a text that is refused with its length and
what is wrong with it. -/
theorem load_logs (text : String) (σ : Store) :
    (load (.text text) σ).Logs
      (fun v log => ∃ c : DiagnosticContent, (load (.text text) σ).store.view v = some c.data ∧
        log = [.loaded c.severity.word c.labels.length c.notes.length])
      fun title issues => [.notLoaded text.length (Issue.headline title issues)] := by
  rcases hread : Json.read .standard text with ⟨fault, position⟩ | j
  · simp only [load, checkText_of_fault _ hread]
    exact Outcome.logs_of_invalid rfl rfl
  obtain ⟨-, hshows⟩ := ofJson_shows σ j
  simp only [load, checkText_of_read _ hread]
  have hfailure := Validation.failure?_diagnostic .json hshows
  rcases Check.cases_of_failure? hfailure with ⟨d, hd, -⟩ | ⟨issues, hd, -⟩ | ⟨n, hd, -⟩
  · obtain ⟨c, hc⟩ := exists_isDraft_of_valid hshows hd
    obtain ⟨-, hview⟩ := Store.newDiagnostic_of_isDraft hc
    simp only [hd, summary_of_view hview]
    exact Outcome.logs_of_ok rfl ⟨c, hview, rfl⟩
  · simp only [hd]
    exact Outcome.logs_of_invalid rfl rfl
  · simp only [hd]
    exact Outcome.logs_of_other rfl (by simp) rfl

/-- A list that is read is logged with its length, a text that is refused with the number of issues. -/
theorem loadAll_logs (text : String) (σ : Store) :
    (loadAll (.text text) σ).Logs
      (fun v log => ∃ cs : List DiagnosticContent,
        (loadAll (.text text) σ).store.view v = some (.list (cs.map DiagnosticContent.data)) ∧
        log = [.loadedAll cs.length])
      fun _ issues => [.notLoadedAll issues.length] := by
  rcases hread : Json.read .standard text with ⟨fault, position⟩ | j
  · simp only [loadAll, checkText_of_fault _ hread]
    exact Outcome.logs_of_invalid rfl rfl
  obtain ⟨-, hshows⟩ := ofJson_shows σ j
  simp only [loadAll, checkText_of_read _ hread]
  have hfailure := Validation.failure?_diagnostics .json hshows
  rcases Check.cases_of_failure? hfailure with ⟨ds, hds, -⟩ | ⟨issues, hd, -⟩ | ⟨n, hd, -⟩
  · obtain ⟨cs, hcs⟩ := exists_areDrafts_of_valid hshows hds
    obtain ⟨hlength, -, hview⟩ := Store.new_list_of_areDrafts hcs
    simp only [hds]
    exact Outcome.logs_of_ok rfl ⟨cs, hview, by rw [hlength]⟩
  · simp only [hd]
    exact Outcome.logs_of_invalid rfl rfl
  · simp only [hd]
    exact Outcome.logs_of_other rfl (by simp) rfl

/-- Plain data is logged when it is refused, with the number of issues. -/
theorem ofPlain_logs (data : Value) (σ : Store) :
    (ofPlain data σ).Logs (fun _ log => log = []) fun _ issues => [.rejected issues.length] := by
  rw [ofPlain]
  split
  · exact Outcome.logs_of_invalid rfl rfl
  · next result τ hother hresult =>
    cases result with
    | error e =>
      refine Outcome.logs_of_other rfl (fun title issues he => ?_) rfl
      exact hother title issues (by rw [he])
    | ok v => exact Outcome.logs_of_ok rfl rfl

/-! ## Requests of a session -/

theorem ofPlain_log_le (data : Value) (σ : Store) : (ofPlain data σ).log.length ≤ 1 := by
  rw [ofPlain]
  split <;> simp

/-- A text without a length is refused without an entry. -/
theorem notLoaded_log_le (text : Value) (title : String) (issues : List Issue) (σ : Store) :
    (notLoaded text title issues σ).log.length ≤ 1 := by
  rw [notLoaded]
  split <;> simp

theorem load_log_le (text : Value) (σ : Store) : (load text σ).log.length ≤ 1 := by
  rw [load]
  split
  · -- what is read is logged if it can be counted
    dsimp only
    split <;> simp
  · exact notLoaded_log_le text _ _ σ
  · simp

theorem loadAll_log_le (text : Value) (σ : Store) : (loadAll text σ).log.length ≤ 1 := by
  rw [loadAll]
  split <;> simp

theorem dump_log_le (config : Config) (v : Value) (σ : Store) :
    (dump config v σ).log.length ≤ 1 := by
  simp only [dump]
  split <;> simp

theorem dumpAll_log_le (config : Config) (v : Value) (σ : Store) :
    (dumpAll config v σ).log.length ≤ 1 := by
  simp only [dumpAll]
  split <;> simp

/-- A transfer logs what its exchange logs, or nothing if there is no argument for it. -/
theorem exchange_log_le {α : Type} {names : Names} {argument : Literal}
    {f : Value → Store → Outcome α} {reply : α → Action Reply}
    (hf : ∀ v τ, (f v τ).log.length ≤ 1) (σ : Store) :
    (Transfer.exchange names argument f reply σ).log.length ≤ 1 := by
  rw [Transfer.exchange]
  split
  · simp
  · dsimp only
    split <;> apply hf

theorem transfer_log_le (names : Names) (t : Transfer) (σ : Store) :
    (t.run names σ).log.length ≤ 1 := by
  cases t with
  | ofPlain data => exact exchange_log_le ofPlain_log_le σ
  | dump config v => exact exchange_log_le (dump_log_le config) σ
  | load text => exact exchange_log_le load_log_le σ
  | dumpAll config v => exact exchange_log_le (dumpAll_log_le config) σ
  | loadAll text => exact exchange_log_le loadAll_log_le σ

/-- A request that logs anything is a transfer, and what it logs is one entry. -/
theorem exists_transfer_of_log_ne_nil {names : Names} {request : Request}
    (h : (request.run names σ).log ≠ []) :
    ∃ (t : Transfer) (entry : LogEntry), request = .transfer t ∧ (t.run names σ).log = [entry] := by
  cases request with
  | operation o => exact absurd rfl h
  | transfer t =>
    have hpos : 0 < (t.run names σ).log.length := List.length_pos_of_ne_nil h
    have hone : (t.run names σ).log.length = 1 := by
      have hle := transfer_log_le names t σ
      omega
    obtain ⟨entry, hentry⟩ := List.length_eq_one_iff.1 hone
    exact ⟨t, entry, rfl, hentry⟩

/-! ## All exchanges -/

/-- What is logged when a well-formed diagnostic is written. -/
theorem dump_wellFormed_logs (config : Config) {l : Loc} {d : DiagnosticFields}
    (hl : σ.get? l = some (.diagnostic d)) (hd : d.IsWellFormed σ) :
    ∃ level labels notes, d.severity = .severity level ∧ σ.cell? d.labels = some (.list labels) ∧
      σ.cell? d.notes = some (.list notes) ∧
      (dump config (.object l) σ).Logs
        (fun text log => log = [.serialized level.word labels.length notes.length text.length])
        fun _ _ => [] := by
  obtain ⟨severity, code, message, labels, notes⟩ := d
  obtain ⟨⟨level, rfl⟩, -, -, ⟨ls, hls, -⟩, ns, hns, -⟩ := hd
  obtain ⟨k, rfl, hk⟩ := Store.exists_of_cell? hls
  obtain ⟨m, rfl, hm⟩ := Store.exists_of_cell? hns
  exact ⟨level, ls, ns, rfl, hls, hns, dump_logs config hl hk hm⟩

/-- **What is logged.** Writing a well-formed diagnostic logs one entry with its counts and with the
length of its text, or nothing if it fails. Writing a list logs one entry with the number of
diagnostics as soon as all of them are converted, even if their JSON is not written then, and nothing
if one of them is not converted. Reading one diagnostic or a list logs one entry with the counts of
what is read, or one with what is wrong; taking plain data logs one entry only if it is refused. When
reading fails in another way nothing is logged. Whatever a session is asked for, it logs one entry at
most, and none unless it is asked for one of these transfers. -/
theorem logged (config : Config) (σ : Store) :
    (∀ l d, σ.get? l = some (.diagnostic d) → d.IsWellFormed σ →
      ∃ level labels notes, d.severity = .severity level ∧ σ.cell? d.labels = some (.list labels) ∧
        σ.cell? d.notes = some (.list notes) ∧
        (dump config (.object l) σ).Logs
          (fun text log => log = [.serialized level.word labels.length notes.length text.length])
          fun _ _ => []) ∧
    (∀ l vs, σ.get? l = some (.list vs) →
      (∃ js, List.Forall₂ (fun v j => (toJson config v).perform σ = (.ok j, σ)) vs js ∧
        dumpAll config (.object l) σ = ⟨listText config js, σ, [.serializing vs.length]⟩) ∨
      ∃ v ∈ vs, ∃ e, (toJson config v).perform σ = (.error e, σ) ∧
        dumpAll config (.object l) σ = ⟨.error e, σ, []⟩) ∧
    (∀ text, (load (.text text) σ).Logs
      (fun v log => ∃ c : DiagnosticContent, (load (.text text) σ).store.view v = some c.data ∧
        log = [.loaded c.severity.word c.labels.length c.notes.length])
      fun title issues => [.notLoaded text.length (Issue.headline title issues)]) ∧
    (∀ text, (loadAll (.text text) σ).Logs
      (fun v log => ∃ cs : List DiagnosticContent,
        (loadAll (.text text) σ).store.view v = some (.list (cs.map DiagnosticContent.data)) ∧
        log = [.loadedAll cs.length])
      fun _ issues => [.notLoadedAll issues.length]) ∧
    (∀ data, (ofPlain data σ).Logs (fun _ log => log = [])
      fun _ issues => [.rejected issues.length]) ∧
    (∀ (names : Names) (request : Request), (request.run names σ).log ≠ [] →
      ∃ (t : Transfer) (entry : LogEntry), request = .transfer t ∧
        (t.run names σ).log = [entry]) ∧
    ∀ entry : LogEntry, "DEBUG ".toList <+: entry.line.toList :=
  ⟨fun _ _ => dump_wellFormed_logs config, fun _ _ => dumpAll_logs config,
    fun text => load_logs text σ, fun text => loadAll_logs text σ, fun data => ofPlain_logs data σ,
    fun _ _ => exists_transfer_of_log_ne_nil, LogEntry.line_debug⟩

/-- The list of two errors is logged although its text would be indented too far, the error alone with
its counts, and a label in a range of one bound not at all. -/
theorem logged_sample :
    dumpAll ⟨some (2 ^ 63), false⟩ (.object 6) sampleStore =
      ⟨.error .oversizedRepetition, sampleStore, [.serializing 2]⟩ ∧
    (∃ text, (dump .standard (.object 5) sampleStore).result = .ok text ∧
      (dump .standard (.object 5) sampleStore).log = [.serialized "error" 1 1 text.length]) ∧
    (load (.text oneBound) sampleStore).log = [] := by
  have hroom : ∀ l ∈ sample.labels, l.fileId.json.nesting + 2 ≤ nestingLimit := by decide
  have hview : sampleStore.view (.object 5) = some sample.data := rfl
  obtain ⟨hdump, -⟩ := logged .standard sampleStore
  obtain ⟨-, hdumpAll, hload, -⟩ := logged ⟨some (2 ^ 63), false⟩ sampleStore
  refine ⟨?_, ?_, ?_⟩
  · have hjson := toJson_of_view hview isNative_sample.isPortable hroom ⟨some (2 ^ 63), false⟩
    rcases hdumpAll 6 [.object 5, .object 5] rfl with ⟨js, -, hall⟩ | ⟨v, hv, e, he, -⟩
    · exact hall
    · -- both are converted
      obtain rfl : v = .object 5 := by simpa using hv
      cases hjson.symm.trans he
  · have hone := congrArg Outcome.result
      (dump_of_view hview isNative_sample.isPortable hroom .standard rfl)
    have hwellFormed : DiagnosticFields.IsWellFormed sampleStore
        ⟨.severity .error, .none, .text "no such name", .object 3, .object 4⟩ := by
      refine ⟨⟨_, rfl⟩, .inl rfl, ⟨_, rfl⟩, ⟨_, rfl, ?_⟩, ⟨_, rfl, ?_⟩⟩
      · exact List.forall_mem_singleton.2 ⟨_, rfl⟩
      · exact List.forall_mem_singleton.2 rfl
    obtain ⟨level, ls, ns, hlevel, hls, hns, hlogs⟩ := hdump 5 _ rfl hwellFormed
    cases hlevel
    cases hls
    cases hns
    exact ⟨_, hone, hlogs.ok _ hone⟩
  · have hmisfit : inText? Json.misfit? oneBound = some 1 := by decide +kernel
    have hresult := ((load_settledUnless_misfit oneBound sampleStore).result_of_misfit 1 hmisfit).1
    exact (hload oneBound).other _ hresult (by simp)

end Exchange

end Diagnostics
