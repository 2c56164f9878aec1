import Diagnostics.Proofs.Validation.Listed

/-!
# The issues of a diagnostic

The issues with data for a diagnostic are those that each field has on its own, in order of
declaration, and the issues with a list are those of its items (`diagnosticIssues`). Unless a
failure ends the check, it has these issues and no others (`issues_diagnosticFields`).
-/

namespace Diagnostics.Validation

variable {α : Type} {σ : Store} {v : Value} {entries : List (String × Value)} {source : Source}

open Store

/-! ## Single values -/

/-- A text is found or there is one issue with it. -/
theorem text_single (σ : Store) (v : Value) : (text σ v).Single := by
  have hdecoded : ∀ bs, (decoded bs).Single := fun bs => by
    rw [decoded]
    split
    · exact .inl ⟨_, rfl⟩
    · exact .inr ⟨_, rfl⟩
  unfold text
  split
  · exact .inl ⟨_, rfl⟩
  · exact hdecoded _
  · exact hdecoded _
  · exact .inr ⟨_, rfl⟩

/-- A text that may be missing is found or there is one issue with it. -/
theorem textOrNone_single (σ : Store) (v : Value) : (textOrNone σ v).Single := by
  unfold textOrNone
  split
  · exact .inl ⟨_, rfl⟩
  · exact (text_single σ v).map some

/-- A level is found or there is one issue with it. -/
theorem severity_single (σ : Store) (v : Value) : (severity σ v).Single := by
  unfold severity
  split
  · exact .inl ⟨_, rfl⟩
  · exact .inl ⟨_, rfl⟩
  · exact .inr ⟨_, rfl⟩

/-- A style is found or there is one issue with it. -/
theorem style_single (σ : Store) (v : Value) : (style σ v).Single := by
  unfold style
  split
  · exact .inl ⟨_, rfl⟩
  · exact .inl ⟨_, rfl⟩
  · exact .inr ⟨_, rfl⟩

/-- An offset is found or there is one issue with it. -/
theorem offset_single (v : Value) : (offset v).Single := (offset_decides v).single

/-! ## Fields -/

/-- The step to a field and the issues with it: those of its value, if it is there. -/
def fieldIssues (name : String) (absent : List Issue) (issues : Value → List Issue)
    (entries : List (String × Value)) : PathStep × List Issue :=
  (.field name, match entries.lookup name with
    | some v => issues v
    | none => absent)

/-- The issue with a field that has to be there and is not. -/
def missing : List Issue := [⟨[], .missing⟩]

/-- A required field has the issues of its value, or one of its own if it is missing. -/
theorem issues_required (name : String) (check : Value → Check α)
    (entries : List (String × Value)) : (required name check entries).issues =
      Issue.gather [fieldIssues name missing (fun v => (check v).issues) entries] := by
  rw [required, fieldIssues]
  cases entries.lookup name with
  | none => rfl
  | some v => simp

/-- An optional field has the issues of its value, and none if it is missing. -/
theorem issues_optional (name : String) (default : α) (check : Value → Check α)
    (entries : List (String × Value)) : (optional name default check entries).issues =
      Issue.gather [fieldIssues name [] (fun v => (check v).issues) entries] := by
  rw [optional, fieldIssues]
  cases entries.lookup name with
  | none => rfl
  | some v => simp

/-- A required field is checked properly if its values are. -/
theorem required_proper {name : String} {check : Value → Check α} (h : ∀ v, (check v).Proper)
    (entries : List (String × Value)) : (required name check entries).Proper := by
  rw [required]
  cases entries.lookup name with
  | none => exact .invalid (List.cons_ne_nil _ _)
  | some v => exact (h v).under _

/-- An optional field is checked properly if its values are. -/
theorem optional_proper {name : String} {default : α} {check : Value → Check α}
    (h : ∀ v, (check v).Proper) (entries : List (String × Value)) :
    (optional name default check entries).Proper := by
  rw [optional]
  cases entries.lookup name with
  | none => exact .valid _
  | some v => exact (h v).under _

/-- The issues with a field have different paths if those with its value have. -/
theorem fieldIssues_distinct (name : String) {absent : List Issue}
    {issues : Value → List Issue} (habsent : Issue.Distinct absent)
    (h : ∀ v, Issue.Distinct (issues v)) (entries : List (String × Value)) :
    Issue.Distinct (fieldIssues name absent issues entries).2 := by
  rw [fieldIssues]
  cases entries.lookup name with
  | none => exact habsent
  | some v => exact h v

/-- The issues with a field go by those with the one value that it has. -/
theorem fieldIssues_congr (name : String) (absent : List Issue) {f g : Value → List Issue}
    (h : ∀ v, entries.lookup name = some v → f v = g v) :
    fieldIssues name absent f entries = fieldIssues name absent g entries := by
  rw [fieldIssues, fieldIssues]
  cases hv : entries.lookup name with
  | none => rfl
  | some v => exact congrArg _ (h v hv)

/-! ## Records -/

/-- The issues with a record: none with one that exists, and else those of its fields. -/
def recordIssues (source : Source) (name : String) (isRecord : Cell → Bool)
    (issues : List (String × Value) → List Issue) (σ : Store) (v : Value) : List Issue :=
  match σ.cell? v with
  | some c =>
    if isRecord c then []
    else
      match c with
      | .table entries => issues entries
      | _ => [⟨[], .notARecord source name⟩]
  | none => [⟨[], .notARecord source name⟩]

/-- The issues with a record are those with its fields, or one if it has none. -/
theorem issues_record (name : String) (isRecord : Cell → Bool)
    (fields : List (String × Value) → Check α) (σ : Store) (v : Value) :
    (record source name isRecord fields σ v).issues =
      recordIssues source name isRecord (fun entries => (fields entries).issues) σ v := by
  rcases hc : σ.cell? v with _ | c
  · have hrefuse : record source name isRecord fields σ v = .refuse (.notARecord source name) := by
      rw [record.eq_def]
      split
      · next h =>
        rw [hc] at h
        cases h
      · rfl
    rw [hrefuse, recordIssues, hc]
    rfl
  · obtain ⟨l, rfl, -⟩ := exists_of_cell? hc
    simp only [record, recordIssues, hc]
    split
    · rfl
    · cases c <;> simp

/-- A record is checked properly if its fields are. -/
theorem record_proper {name : String} {isRecord : Cell → Bool}
    {fields : List (String × Value) → Check α} (h : ∀ entries, (fields entries).Proper) (σ : Store)
    (v : Value) : (record source name isRecord fields σ v).Proper := by
  have hrefuse : (Check.refuse (.notARecord source name) : Check (Draft α)).Proper :=
    .invalid (List.cons_ne_nil _ _)
  rw [record.eq_def]
  split
  · split
    · exact .valid _
    · split
      · exact (h _).map _
      · exact hrefuse
  · exact hrefuse

/-- The issues with a record have different paths if those with its fields have. -/
theorem recordIssues_distinct {name : String} {isRecord : Cell → Bool}
    {issues : List (String × Value) → List Issue} (h : ∀ entries, Issue.Distinct (issues entries))
    (σ : Store) (v : Value) : Issue.Distinct (recordIssues source name isRecord issues σ v) := by
  rw [recordIssues]
  split
  · split
    · exact Issue.distinct_nil
    · split
      · exact h _
      · exact Issue.distinct_single _
  · exact Issue.distinct_single _

/-! ## Ranges -/

/-- The issues with the ends of a range are listed side by side, under the name of each. -/
theorem issues_bounds (start stop : Value) : (bounds start stop).issues =
    Issue.gather [(.field "start", (offset start).issues), (.field "end", (offset stop).issues)] := by
  rw [bounds, Check.issues_map, Check.issues_both (by simp)]
  simp

/-- Both ends may be at fault, but each only once. -/
theorem bounds_distinct (start stop : Value) : Issue.Distinct (bounds start stop).issues := by
  rw [issues_bounds]
  refine Issue.distinct_gather (by simp) ?_
  simp [(offset_single _).distinct]

/-- The fields of a byte range are checked properly. -/
theorem byteRangeFields_proper (entries : List (String × Value)) :
    (byteRangeFields entries).Proper :=
  ((required_proper (fun v => (offset_single v).proper) entries).both
    (required_proper (fun v => (offset_single v).proper) entries)).map _

/-- The issues with the fields of a byte range are those with its ends. -/
theorem issues_byteRangeFields (entries : List (String × Value)) : (byteRangeFields entries).issues =
    Issue.gather [fieldIssues "start" missing (fun v => (offset v).issues) entries,
      fieldIssues "end" missing (fun v => (offset v).issues) entries] := by
  rw [byteRangeFields, Check.issues_map, Check.issues_both (by simp [failure?_required]),
    issues_required, issues_required]
  simp [Issue.gather]

/-- No two issues with the fields of a byte range have the same path. -/
theorem byteRangeFields_distinct (entries : List (String × Value)) :
    Issue.Distinct (byteRangeFields entries).issues := by
  rw [issues_byteRangeFields]
  refine Issue.distinct_gather (by simp [fieldIssues]) ?_
  have habsent : Issue.Distinct missing := Issue.distinct_single _
  have hdistinct := fun name => fieldIssues_distinct name habsent
    (fun v => (offset_single v).distinct) entries
  simp [hdistinct]

/-- What describes a range is checked properly, in whichever form it is given. -/
theorem asByteRange_proper (σ : Store) (v : Value) : (asByteRange σ v).Proper := by
  rcases asByteRange_cases σ v with ⟨d, hd⟩ | ⟨issues, hne, hissues⟩ | ⟨e, hother, he⟩
  · exact hd ▸ .valid d
  · exact hissues ▸ .invalid hne
  · exact he ▸ .aborted hother

/-- No two issues with what describes a range have the same path. -/
theorem asByteRange_distinct (σ : Store) (v : Value) : Issue.Distinct (asByteRange σ v).issues := by
  by_cases hrecord : σ.IsByteRange v
  · obtain ⟨l, -, hl⟩ := asByteRange_of_isByteRange hrecord
    rw [hl]
    exact Issue.distinct_nil
  by_cases hspans : ∃ start stop, σ.Spans v start stop
  · obtain ⟨start, stop, hspans⟩ := hspans
    rw [asByteRange_of_spans hspans]
    exact bounds_distinct start stop
  · obtain ⟨e, he⟩ := asByteRange_of_other hrecord fun s e h => hspans ⟨s, e, h⟩
    rw [he]
    exact Issue.distinct_nil

/-- A check stays proper when what it cannot explain is made an issue. -/
theorem contain_proper {c : Check α} (h : c.Proper) : (contain c).Proper := by
  unfold contain
  split
  · exact .invalid (List.cons_ne_nil _ _)
  · exact h

/-- An issue that stands for a failure is the only one. -/
theorem contain_distinct {c : Check α} (h : Issue.Distinct c.issues) :
    Issue.Distinct (contain c).issues := by
  unfold contain
  split
  · exact Issue.distinct_single _
  · exact h

/-- The range of a label is checked properly, from plain data and from JSON. -/
theorem labelRange_proper (σ : Store) (v : Value) : (labelRange source σ v).Proper := by
  unfold labelRange
  split
  case h_5 => exact record_proper byteRangeFields_proper σ v
  all_goals exact contain_proper (asByteRange_proper σ v)

/-- No two issues with the range of a label have the same path. -/
theorem labelRange_distinct (source : Source) (σ : Store) (v : Value) :
    Issue.Distinct (labelRange source σ v).issues := by
  unfold labelRange
  split
  case h_5 =>
    rw [byteRange, issues_record]
    exact recordIssues_distinct byteRangeFields_distinct σ v
  all_goals exact contain_distinct (asByteRange_distinct σ v)

/-! ## Labels -/

/-- The issues of the fields of a label. -/
def labelFieldIssues (source : Source) (σ : Store) (entries : List (String × Value)) : List Issue :=
  Issue.gather [
    fieldIssues "style" missing (fun v => (style σ v).issues) entries,
    fieldIssues "file_id" missing (fun _ => []) entries,
    fieldIssues "range" missing (fun v => (labelRange source σ v).issues) entries,
    fieldIssues "message" [] (fun v => (text σ v).issues) entries]

/-- The issues with a label. -/
def labelIssues (source : Source) (σ : Store) (v : Value) : List Issue :=
  recordIssues source "Label" (· matches .label _) (labelFieldIssues source σ) σ v

/-- The fields of a label are checked properly, one after the other. -/
theorem labelFields_proper (entries : List (String × Value)) :
    (labelFields source σ entries).Proper :=
  ((required_proper (fun v => (style_single σ v).proper) entries).both
    ((required_proper (fun v => .valid v) entries).both
      ((required_proper (labelRange_proper σ) entries).both
        (optional_proper (fun v => (text_single σ v).proper) entries)))).map _

/-- Unless the check of a label is aborted, its issues are gathered field by field. -/
theorem issues_labelFields (h : (labelFields source σ entries).failure? = none) :
    (labelFields source σ entries).issues = labelFieldIssues source σ entries := by
  rw [labelFields, Check.failure?_map] at h
  have hfile := (Check.failure?_both_eq_none_iff.1 h).2
  have hrange := (Check.failure?_both_eq_none_iff.1 hfile).2
  rw [labelFields, Check.issues_map, Check.issues_both h, Check.issues_both hfile,
    Check.issues_both hrange]
  simp only [issues_required, issues_optional]
  simp [labelFieldIssues, Issue.gather]

/-- No two issues with the fields of a label have the same path, since each has the name of its
field in front. -/
theorem labelFieldIssues_distinct (entries : List (String × Value)) :
    Issue.Distinct (labelFieldIssues source σ entries) := by
  rw [labelFieldIssues]
  refine Issue.distinct_gather (by simp [fieldIssues]) ?_
  have habsent : Issue.Distinct missing := Issue.distinct_single _
  have hstyle := fieldIssues_distinct "style" habsent
    (fun v => (style_single σ v).distinct) entries
  have hfile := fieldIssues_distinct "file_id" habsent
    (fun _ : Value => Issue.distinct_nil) entries
  have hrange := fieldIssues_distinct "range" habsent
    (labelRange_distinct source σ) entries
  have hmessage := fieldIssues_distinct "message" Issue.distinct_nil
    (fun v => (text_single σ v).distinct) entries
  simp [hstyle, hfile, hrange, hmessage]

/-- A label is checked properly. -/
theorem label_proper (v : Value) : (label source σ v).Proper :=
  record_proper labelFields_proper σ v

/-- Unless its check is aborted, the issues with a label are those of its fields. -/
theorem issues_label (h : (label source σ v).failure? = none) :
    (label source σ v).issues = labelIssues source σ v := by
  rw [label, issues_record, labelIssues, recordIssues, recordIssues]
  rcases hc : σ.cell? v with _ | c
  · rfl
  cases c with
  | table entries =>
    obtain ⟨l, rfl, hl⟩ := exists_of_cell? hc
    rw [label, record_of_table _ hl rfl, Check.failure?_map] at h
    exact issues_labelFields h
  | _ => rfl

/-- No two issues with a label have the same path. -/
theorem labelIssues_distinct (source : Source) (σ : Store) (v : Value) :
    Issue.Distinct (labelIssues source σ v) :=
  recordIssues_distinct labelFieldIssues_distinct σ v

/-! ## Lists -/

/-- The issues with a list: those of its items. -/
def listIssues (source : Source) (issues : Value → List Issue) (σ : Store) (v : Value) :
    List Issue :=
  match listElements? σ v with
  | some (items, _) => Issue.gather (items.mapIdx fun i v => (.index i, issues v))
  | none => [⟨[], .notAList source⟩]

end Diagnostics.Validation

namespace Diagnostics.Store

/-- Whether a value is a list or a tuple, and what it holds. -/
inductive Sequence (σ : Store) (v : Value) : List Value → Prop
  | list {items : List Value} (cell : σ.cell? v = some (.list items)) : Sequence σ v items
  | tuple {items : List Value} (cell : σ.cell? v = some (.tuple items)) : Sequence σ v items

/-- Whether a value is a list or a tuple, if it can be read as a list at all. -/
def ListLike (σ : Store) (v : Value) : Prop :=
  (∃ items, σ.Sequence v items) ∨ Validation.listElements? σ v = none

/-- A list or a tuple gives its items to a check without being used up. -/
theorem Sequence.listElements? {σ : Store} {v : Value} {items : List Value}
    (h : σ.Sequence v items) : Validation.listElements? σ v = some (items, σ) := by
  cases h with
  | list cell =>
    obtain ⟨l, rfl, hl⟩ := exists_of_cell? cell
    simp only [Validation.listElements?, cell?, hl, elements?, Value.asText?, Cell.items?]
  | tuple cell =>
    obtain ⟨l, rfl, hl⟩ := exists_of_cell? cell
    simp only [Validation.listElements?, cell?, hl, elements?, Value.asText?, Cell.items?]

/-- A one-shot sequence can be read as a list and is neither a list nor a tuple. -/
theorem ListLike.not_iterator {σ : Store} {v : Value} (h : σ.ListLike v) (us : List Value) :
    σ.cell? v ≠ some (.iterator us) := by
  intro hus
  rcases h with ⟨items, hitems⟩ | hnone
  · cases hitems with
    | list cell => cases cell.symm.trans hus
    | tuple cell => cases cell.symm.trans hus
  · obtain ⟨l, rfl, hl⟩ := exists_of_cell? hus
    simp [Validation.listElements?, hus, elements?, Value.asText?, hl, Cell.items?] at hnone

end Diagnostics.Store

namespace Diagnostics.Validation

variable {α : Type} {σ : Store} {v : Value} {entries : List (String × Value)} {source : Source}

open Store

/-- Unless the check is aborted, the issues with a list are those of its items, each under its
index. -/
theorem issues_listOf {check : Store → Value → Check α} {issues : Value → List Issue}
    (hlike : σ.ListLike v) (h : (listOf source check σ v).failure? = none)
    (hissues : ∀ v, (check σ v).failure? = none → (check σ v).issues = issues v) :
    (listOf source check σ v).issues = listIssues source issues σ v := by
  rcases hlike with ⟨items, hitems⟩ | hnone
  · rw [listOf, hitems.listElements?] at h ⊢
    rw [listIssues, hitems.listElements?]
    dsimp only at h ⊢
    rw [Check.failure?_each, List.findSome?_eq_none_iff] at h
    rw [Check.issues_each h]
    simp only [Nat.zero_add]
    congr 1
    refine List.mapIdx_eq_mapIdx_iff.2 fun i hi => ?_
    rw [hissues _ (h _ (List.getElem_mem hi))]
  · rw [listOf, listIssues, hnone]
    rfl

/-- Checks of texts never end with a failure. -/
theorem failure?_listOf_text (source : Source) (σ : Store) (v : Value) :
    (listOf source text σ v).failure? = none := by
  rw [listOf]
  split
  · rw [Check.failure?_each, List.findSome?_eq_none_iff]
    exact fun v _ => failure?_text _ v
  · rfl

/-- A list is checked properly if its items are. -/
theorem listOf_proper {check : Store → Value → Check α} (h : ∀ σ v, (check σ v).Proper)
    (σ : Store) (v : Value) : (listOf source check σ v).Proper := by
  rw [listOf]
  split
  · exact .each (fun v _ => h _ v) 0
  · exact .invalid (List.cons_ne_nil _ _)

/-- The issues with a list have different paths if those with each of its items have. -/
theorem listIssues_distinct (source : Source) {issues : Value → List Issue}
    (h : ∀ v, Issue.Distinct (issues v)) (σ : Store) (v : Value) :
    Issue.Distinct (listIssues source issues σ v) := by
  rw [listIssues]
  split
  · next items _ _ =>
    refine Issue.distinct_gather ?_ ?_
    · rw [List.mapIdx_eq_zipIdx_map, List.map_map]
      have hsteps : (items.zipIdx.map Prod.snd).map PathStep.index =
          items.zipIdx.map ((·.1) ∘ fun p => (PathStep.index p.2, issues p.1)) := by
        rw [List.map_map]
        rfl
      rw [← hsteps, List.zipIdx_map_snd]
      exact (List.nodup_range').map fun _ _ => PathStep.index.inj
    · simp only [List.mem_mapIdx]
      rintro _ ⟨i, hi, rfl⟩
      exact h _
  · exact Issue.distinct_single _

/-- What is no one-shot sequence is not used up. -/
theorem spend_of_listLike {check : Store → Value → Check α} (hlike : σ.ListLike v) :
    spend check σ v = σ := by
  rcases hlike with ⟨items, hitems⟩ | hnone
  · rw [spend, hitems.listElements?]
    exact leave_other (ListLike.not_iterator (.inl ⟨items, hitems⟩)) _
  · rw [spend, hnone]

/-- Labels in a list or a tuple are not used up by the check. -/
theorem spendLabels_of_listLike (h : ∀ v, entries.lookup "labels" = some v → σ.ListLike v) :
    spendLabels source σ entries = σ := by
  rw [spendLabels]
  split
  · next v hv => exact spend_of_listLike (h v hv)
  · rfl

/-! ## Diagnostics -/

/-- The issues with the fields of a diagnostic, in order of declaration. -/
def diagnosticIssues (source : Source) (σ : Store) (entries : List (String × Value)) : List Issue :=
  Issue.gather [
    fieldIssues "severity" missing (fun v => (severity σ v).issues) entries,
    fieldIssues "code" [] (fun v => (textOrNone σ v).issues) entries,
    fieldIssues "message" [] (fun v => (text σ v).issues) entries,
    fieldIssues "labels" [] (listIssues source (labelIssues source σ) σ) entries,
    fieldIssues "notes" [] (listIssues source (fun v => (text σ v).issues) σ) entries]

/-- No two issues with a diagnostic have the same path, whatever its fields are. -/
theorem diagnosticIssues_distinct (entries : List (String × Value)) :
    Issue.Distinct (diagnosticIssues source σ entries) := by
  rw [diagnosticIssues]
  refine Issue.distinct_gather (by simp [fieldIssues]) ?_
  have habsent : Issue.Distinct missing := Issue.distinct_single _
  have hseverity := fieldIssues_distinct "severity" habsent
    (fun v => (severity_single σ v).distinct) entries
  have hcode := fieldIssues_distinct "code" Issue.distinct_nil
    (fun v => (textOrNone_single σ v).distinct) entries
  have hmessage := fieldIssues_distinct "message" Issue.distinct_nil
    (fun v => (text_single σ v).distinct) entries
  have hlabels := fieldIssues_distinct "labels" Issue.distinct_nil
    (listIssues_distinct source (labelIssues_distinct source σ) σ) entries
  have hnotes := fieldIssues_distinct "notes" Issue.distinct_nil
    (listIssues_distinct source (fun v => (text_single σ v).distinct) σ) entries
  simp only [List.forall_mem_cons, List.not_mem_nil, false_implies, implies_true, and_true]
  exact ⟨hseverity, hcode, hmessage, hlabels, hnotes⟩

/-- The fields of a diagnostic are checked properly. -/
theorem diagnosticFields_proper (entries : List (String × Value)) :
    (diagnosticFields source σ entries).Proper :=
  ((required_proper (fun v => (severity_single σ v).proper) entries).both
    ((optional_proper (fun v => (textOrNone_single σ v).proper) entries).both
      ((optional_proper (fun v => (text_single σ v).proper) entries).both
        ((optional_proper (listOf_proper (fun _ => label_proper) σ) entries).both
          (optional_proper (listOf_proper (fun τ v => (text_single τ v).proper) _) entries))))).map _

/-- Unless the check of a diagnostic is aborted, its issues are those of its fields in order of
declaration. -/
theorem issues_diagnosticFields
    (hlabels : ∀ v, entries.lookup "labels" = some v → σ.ListLike v)
    (hnotes : ∀ v, entries.lookup "notes" = some v → σ.ListLike v)
    (h : (diagnosticFields source σ entries).failure? = none) :
    (diagnosticFields source σ entries).issues = diagnosticIssues source σ entries := by
  rw [diagnosticFields, spendLabels_of_listLike hlabels] at h ⊢
  rw [Check.failure?_map] at h
  have hcode := (Check.failure?_both_eq_none_iff.1 h).2
  have hmessage := (Check.failure?_both_eq_none_iff.1 hcode).2
  have hlists := (Check.failure?_both_eq_none_iff.1 hmessage).2
  have hlabelList : (entries.lookup "labels").bind _ = none :=
    (failure?_optional _ _ _ _).symm.trans (Check.failure?_both_eq_none_iff.1 hlists).1
  rw [Check.issues_map, Check.issues_both h, Check.issues_both hcode, Check.issues_both hmessage,
    Check.issues_both hlists, labels, notes]
  simp only [issues_required, issues_optional]
  have hlabelIssues := fieldIssues_congr "labels" [] fun v hv =>
    issues_listOf (hlabels v hv) (by rwa [hv] at hlabelList) fun _ => issues_label
  have hnoteIssues := fieldIssues_congr "notes" [] fun v hv =>
    issues_listOf (hnotes v hv) (failure?_listOf_text source σ v) fun _ _ => rfl
  rw [hlabelIssues, hnoteIssues]
  simp [diagnosticIssues, Issue.gather]

end Diagnostics.Validation
