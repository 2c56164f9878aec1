import Diagnostics.Proofs.Builder.Copied
import Diagnostics.Proofs.Builder.Sketch
import Diagnostics.Session

/-!
# Runs of calls

What a diagnostic has become after any number of calls can be told from the calls alone. A history
lists the calls, each with the store that it was made in; between two calls anything may happen that
leaves the diagnostic alone (`Store.Calls`). In the end the code and the message are the last ones that
were set, and the labels and the notes are all that were added, in order (`calls_sketch`).

If all arguments are there beforehand and no one-shot sequence is given twice, a call contributes
what it would have contributed right away. So what the diagnostic shows in the end depends on the
arguments for each of its fields, and not on how these calls are mixed (`Sketch.IsAt.callAll`).
-/

namespace Diagnostics

variable {σ τ ρ : Store} {T : Loc → Prop} {v w source : Value} {vs : List Value}

open Store Diagnostics.Action

/-! ## Histories -/

/-- Whether a value refers to none of some places. -/
def Store.IsForeign (σ : Store) (T : Loc → Prop) (v : Value) : Prop :=
  ∀ k, σ.Reaches v k → k < σ.size ∧ ¬ T k

/-- What is no object refers to nothing. -/
theorem Store.isForeign_of_ne_object (hv : ∀ l, v ≠ .object l) : σ.IsForeign T v := by
  intro k hk
  obtain ⟨l, rfl⟩ := hk.exists_object
  exact absurd rfl (hv l)

theorem Store.IsForeign.offersClear (h : σ.IsForeign T v) : σ.OffersClear T v := by
  refine ⟨fun k hk => h k hk.reaches_of_shown, fun rest hrest w hw k hk => h k ?_⟩
  obtain ⟨l, rfl, hl⟩ := exists_of_cell? hrest
  exact .through hl hw hk.reaches_of_shown

/-- Whether calls on a diagnostic, each made in some store, lead from one store to another. Between
them anything may happen that leaves the diagnostic and its lists alone. -/
inductive Store.Calls (p : Builder.Places) : Store → List (Store × Builder.Call) → Store → Prop where
  | done (σ : Store) : Calls p σ [] σ
  | call {σ history ρ} (c : Builder.Call) (foreign : σ.IsForeign p.Has c.argument)
    (rest : Calls p ((c.act (.object p.diagnostic)).perform σ).2 history ρ) :
    Calls p σ ((σ, c) :: history) ρ
  | meanwhile {σ τ history ρ} (alone : ∀ k, p.Has k → τ.get? k = σ.get? k)
    (rest : Calls p τ history ρ) : Calls p σ history ρ

namespace Builder

variable {s : Sketch} {p : Places} {c : Call} {history : List (Store × Call)}

/-- The sketch after calls: what was set last, and all that was added. -/
def Sketch.afterAll (s : Sketch) (history : List (Store × Call)) : Sketch where
  severity := s.severity
  code := (history.filterMap fun e => e.2.text? .code e.1).getLast?.or s.code
  message := (history.filterMap fun e => e.2.text? .message e.1).getLast?.getD s.message
  labels := s.labels ++ history.flatMap fun e => e.2.labels e.1
  notes := s.notes ++ history.flatMap fun e => e.2.notes e.1

/-- What comes last is the first only where nothing else comes. -/
theorem getLast?_filterMap_cons {α β : Type} (f : α → Option β) (a : α) (as : List α) :
    ((a :: as).filterMap f).getLast? = (as.filterMap f).getLast?.or (f a) := by
  rw [List.filterMap_cons]
  rcases f a with _ | b
  · rw [Option.or_none]
  · rw [List.getLast?_cons]
    rcases (as.filterMap f).getLast? <;> rfl

theorem Sketch.afterAll_cons (s : Sketch) (σ : Store) (c : Call) (history : List (Store × Call)) :
    s.afterAll ((σ, c) :: history) = (s.after σ c).afterAll history := by
  simp only [afterAll, after, getLast?_filterMap_cons, List.flatMap_cons, List.append_assoc,
    Option.or_assoc, Option.getD_or]

/-- **Histories.** After calls the diagnostic is what they make of it, and those calls succeeded that
could. -/
theorem calls_sketch (h : τ.Calls p history ρ) (hs : s.IsAt τ p) :
    (s.afterAll history).IsAt ρ p ∧
      ∀ e ∈ history,
        (((e.2.act (.object p.diagnostic)).perform e.1).1 = .ok () ↔ e.2.Succeeds e.1) := by
  induction h generalizing s with
  | done σ =>
    refine ⟨?_, List.forall_mem_nil _⟩
    simpa [Sketch.afterAll] using hs
  | @call σ history ρ c foreign _ ih =>
    obtain ⟨hafter, hok⟩ := hs.call c foreign.offersClear
    obtain ⟨hsketch, hhistory⟩ := ih hafter
    rw [Sketch.afterAll_cons]
    exact ⟨hsketch, List.forall_mem_cons.2 ⟨hok, hhistory⟩⟩
  | meanwhile alone _ ih => exact ih (hs.of_get?_eq alone)

/-- A new diagnostic has nothing but a severity. -/
theorem perform_diagnostic (s : Severity) (σ : Store) : ∃ p τ,
    (Record.diagnostic (.severity s)).perform σ = (.ok (.object p.diagnostic), τ) ∧
      σ.Extends τ ∧ (∀ k, p.Has k → σ.size ≤ k) ∧ Sketch.IsAt ⟨s, none, "", [], []⟩ τ p := by
  let draft : DiagnosticDraft := ⟨s, none, "", [], []⟩
  have hvalid : (Validation.diagnosticFields .values σ [("severity", .severity s)]).map
      Draft.fresh = .valid (.fresh draft) := rfl
  have hperform := Record.perform_build newDiagnostic "Diagnostic"
    (fun σ => (Validation.diagnosticFields .values σ [("severity", .severity s)]).map .fresh) hvalid
  let σ₁ := (σ.alloc (.list [])).2
  let σ₂ := (σ₁.alloc (.list [])).2
  have hsize : σ₁.size = σ.size + 1 := size_alloc σ _
  have hsize' : σ₂.size = σ₁.size + 1 := size_alloc σ₁ _
  refine ⟨⟨σ₂.size, σ.size, σ₁.size⟩, _, hperform, newDiagnostic_extends σ draft, ?_, ?_⟩
  · rintro k (rfl | rfl | rfl) <;> dsimp only <;> omega
  refine ⟨get?_alloc_self σ₂ _, ?_, ?_, ?_⟩
  · exact get?_alloc_of_get? _ (get?_alloc_of_get? _ (get?_alloc_self σ _))
  · exact get?_alloc_of_get? _ (get?_alloc_self σ₁ _)
  · exact fun heq => Nat.succ_ne_self _ (hsize.symm.trans heq.symm)

/-! ## What shows after calls -/

/-- What a diagnostic shows, without regard to where it lies. -/
structure Portrait where
  severity : Severity
  code : Option String
  message : String
  labels : List (Option Data)
  notes : List String

/-- What a sketch shows in a store. -/
def Sketch.portrait (s : Sketch) (σ : Store) : Portrait :=
  ⟨s.severity, s.code, s.message, s.labels.map σ.view, s.notes⟩

/-- The data of a diagnostic, if all its labels show. -/
def Portrait.view (q : Portrait) : Option Data :=
  (q.labels.mapM id).map fun ds => .diagnostic (.severity q.severity)
    ((q.code.map Data.text).getD .none) (.text q.message) (.list ds) (.list (q.notes.map .text))

/-- The labels that a call adds, as they show. -/
def Call.views (σ : Store) (c : Call) : List (Option Data) :=
  if c.method.field = .labels then (σ.offered Store.view c.argument).getD [] else []

/-- The portrait after calls. -/
def Portrait.after (q : Portrait) (σ : Store) (calls : List Call) : Portrait where
  severity := q.severity
  code := (calls.filterMap (Call.text? .code σ)).getLast?.or q.code
  message := (calls.filterMap (Call.text? .message σ)).getLast?.getD q.message
  labels := q.labels ++ calls.flatMap (Call.views σ)
  notes := q.notes ++ calls.flatMap (Call.notes σ)

theorem view_texts (σ : Store) (ts : List String) :
    (ts.map Value.text).mapM σ.view = some (ts.map Data.text) := by
  rw [mapM_eq_some_iff, List.forall₂_map_left_iff, List.forall₂_map_right_iff,
    List.forall₂_same]
  exact fun t _ => view_text σ t

/-- A diagnostic shows its portrait. -/
theorem Sketch.IsAt.view_eq (h : s.IsAt σ p) :
    σ.view (.object p.diagnostic) = (s.portrait σ).view := by
  have hseverity : σ.view (.severity s.severity) = some (.severity s.severity) :=
    view_of_unfold_zero rfl
  have hcode : σ.view ((s.code.map Value.text).getD .none) =
      some ((s.code.map Data.text).getD .none) := by
    rcases s.code with _ | t
    · exact view_none σ
    · exact view_text σ t
  have hnotes := view_list h.noteList
  rw [view_texts] at hnotes
  rw [view_diagnostic h.diagnostic]
  simp only [Sketch.fields, hseverity, hcode, view_text, view_list h.labelList, hnotes,
    Portrait.view, Sketch.portrait, List.mapM_map,
    Function.id_comp]
  rcases s.labels.mapM σ.view with _ | ds <;> rfl

theorem map_given {α : Type} (f : Store → Value → α) (σ : Store) (v : Value) :
    (given σ v).1.map (f (given σ v).2) = (σ.offered f v).getD [] := by
  rw [given, offered]
  rcases σ.elements? v with _ | ⟨vs, τ⟩ <;> rfl

/-- A call on a diagnostic changes nothing but the diagnostic, and uses up its argument. -/
theorem Sketch.IsAt.calmBut (h : s.IsAt σ p) (c : Call) :
    σ.CalmBut p.Has c.argument ((c.act (.object p.diagnostic)).perform σ).2 := by
  refine (c.method.calmBut (.object p.diagnostic) c.argument σ).mono ?_
  rintro k (hk | ⟨d, hd, hk⟩)
  · exact .inl (Value.object.inj hk).symm
  · obtain rfl := Cell.diagnostic.inj (Option.some.inj (h.diagnostic.symm.trans hd))
    rcases hk with hk | hk
    · exact .inr (.inl (Value.object.inj hk).symm)
    · exact .inr (.inr (Value.object.inj hk).symm)

/-- The labels that a call adds show what they showed when they were given. -/
theorem Sketch.IsAt.views_labels (h : s.IsAt σ p) (c : Call)
    (hc : σ.OffersClear p.Has c.argument) :
    let τ := ((c.act (.object p.diagnostic)).perform σ).2
    (∀ w ∈ c.labels σ, τ.ShowsClear p.Has w) ∧ (c.labels σ).map τ.view = c.views σ := by
  obtain ⟨method, v⟩ := c
  have hne : v ≠ .object p.labels := by
    rintro rfl
    exact (hc.1 _ (.here _)).2 (.inr (.inl rfl))
  have hgiven : ∀ w ∈ (given σ v).1, (given σ v).2.ShowsClear p.Has w := by
    rw [given]
    rcases helements : σ.elements? v with _ | ⟨vs, τ⟩
    · exact List.forall_mem_nil _
    · exact hc.elements? h.lt_size helements
  have added : ∀ {τ : Store}, (given σ v).2.CalmBut (· = p.labels) v τ →
      (∀ w ∈ (given σ v).1, τ.ShowsClear p.Has w) ∧
        (given σ v).1.map τ.view = (σ.offered Store.view v).getD [] := by
    intro τ hτ
    have hτ' : (given σ v).2.CalmBut p.Has v τ := hτ.mono fun k hk => .inr (.inl hk)
    refine ⟨fun w hw => (hgiven w hw).after hτ', ?_⟩
    rw [← map_given]
    exact List.map_congr_left fun w hw => (hgiven w hw).view_eq hτ'
  cases method with
  | labels => exact added (h.withLabels v).2.2
  | labelsEach => exact added (h.withLabelsEach hne).2.2
  | _ => exact ⟨List.forall_mem_nil _, rfl⟩

/-! ## Sequences of calls -/

section Sequences

variable {calls others : List Call} {q : Portrait}

/-- The store after calls on a receiver, one right after the other. -/
def callAll (receiver : Value) (calls : List Call) (σ : Store) : Store :=
  calls.foldl (fun σ c => ((c.act receiver).perform σ).2) σ

/-- Whether no one-shot sequence is the argument of two calls. -/
def ShareNoSequence (σ : Store) (calls : List Call) : Prop :=
  calls.Pairwise fun c d =>
    c.argument = d.argument → ∀ rest, σ.cell? c.argument ≠ some (.iterator rest)

/-- The arguments of those calls that change a field. -/
def argumentsOf (field : Field) (calls : List Call) : List Value :=
  (calls.filter (·.method.field = field)).map (·.argument)

/-- What is contributed to a field depends on the arguments for the field. -/
theorem filterMap_text? (field : Field) (σ : Store) (calls : List Call) :
    calls.filterMap (Call.text? field σ) =
      (argumentsOf field calls).filterMap fun v => (textOf σ v).toOption := by
  rw [argumentsOf, List.filterMap_map, List.filterMap_filter]
  refine List.filterMap_congr fun c _ => ?_
  simp only [Call.text?, decide_eq_true_eq, Function.comp_apply]

theorem flatMap_ite {β : Type} (field : Field) (f : Value → List β) (calls : List Call) :
    (calls.flatMap fun c => if c.method.field = field then f c.argument else []) =
      (argumentsOf field calls).flatMap f := by
  rw [argumentsOf, List.flatMap_map]
  induction calls with
  | nil => rfl
  | cons c calls ih =>
    rw [List.flatMap_cons, ih, List.filter_cons]
    by_cases hc : c.method.field = field <;> simp [hc]

/-- What a diagnostic shows after calls depends on the arguments for each field. -/
theorem Portrait.after_congr (q : Portrait) (σ : Store)
    (h : ∀ field, argumentsOf field calls = argumentsOf field others) :
    q.after σ calls = q.after σ others := by
  have hviews : ∀ calls : List Call, calls.flatMap (Call.views σ) =
      (argumentsOf .labels calls).flatMap fun v => (σ.offered Store.view v).getD [] :=
    flatMap_ite .labels fun v => (σ.offered Store.view v).getD []
  have hnotes : ∀ calls : List Call, calls.flatMap (Call.notes σ) =
      (argumentsOf .notes calls).flatMap (textsOf σ) :=
    flatMap_ite .notes (textsOf σ)
  simp only [after, filterMap_text?, hviews, hnotes, h]

/-- What a call contributes stays the same until its argument is used. -/
theorem contributions_eq (hτ : σ.CalmBut T source τ) (hc : σ.OffersClear T c.argument)
    (hsource : source = c.argument → ∀ rest, σ.cell? c.argument ≠ some (.iterator rest)) :
    (∀ field, c.text? field τ = c.text? field σ) ∧ c.views τ = c.views σ ∧
      c.notes τ = c.notes σ := by
  have htext := sees_textOf.same (hc.1.looksSame hτ)
  refine ⟨fun field => ?_, ?_, ?_⟩
  · rw [Call.text?, Call.text?, htext]
  · rw [Call.views, Call.views, hc.offered_eq sees_view hτ hsource]
  · rw [Call.notes, Call.notes, textsOf, textsOf, map_given, map_given,
      hc.offered_eq sees_textOf hτ hsource]

/-- **Sequences.** After calls on arguments that have nothing to do with it, a diagnostic shows what
these contribute in the store before the first call. -/
theorem Sketch.IsAt.callAll (h : s.IsAt σ p) (hlabels : ∀ w ∈ s.labels, σ.ShowsClear p.Has w)
    (hcalls : ∀ c ∈ calls, σ.OffersClear p.Has c.argument) (hshare : ShareNoSequence σ calls) :
    (Builder.callAll (.object p.diagnostic) calls σ).view (.object p.diagnostic) =
      ((s.portrait σ).after σ calls).view := by
  induction calls generalizing s σ with
  | nil =>
    rw [Builder.callAll, List.foldl_nil, h.view_eq]
    simp [Portrait.after]
  | cons c calls ih =>
    obtain ⟨hc, hcalls⟩ := List.forall_mem_cons.1 hcalls
    obtain ⟨hfirst, hshare⟩ := List.pairwise_cons.1 hshare
    obtain ⟨hadded, hviews⟩ := h.views_labels c hc
    have hτ := h.calmBut c
    have hafter := (h.call c hc).1
    rw [Builder.callAll, List.foldl_cons]
    generalize ((c.act (.object p.diagnostic)).perform σ).2 = τ at *
    have hsource : ∀ d ∈ calls, c.argument = d.argument →
        ∀ rest, σ.cell? d.argument ≠ some (.iterator rest) :=
      fun d hd heq => heq ▸ hfirst d hd heq
    have hsame := fun d hd => contributions_eq hτ (hcalls d hd) (hsource d hd)
    have hlabels' : ∀ w ∈ (s.after σ c).labels, τ.ShowsClear p.Has w :=
      List.forall_mem_append.2 ⟨fun w hw => (hlabels w hw).after hτ, hadded⟩
    have hshare' : ShareNoSequence τ calls := by
      refine hshare.imp_of_mem fun hd _ hde heq rest hrest => ?_
      obtain ⟨before, hbefore⟩ := (hcalls _ hd).1.exists_iterator hτ hrest
      exact hde heq before hbefore
    have hportrait : ((s.after σ c).portrait τ).after τ calls =
        (s.portrait σ).after σ (c :: calls) := by
      have htexts : ∀ field, calls.filterMap (Call.text? field τ) =
          calls.filterMap (Call.text? field σ) :=
        fun field => List.filterMap_congr fun d hd => (hsame d hd).1 field
      have hviews' : calls.flatMap (Call.views τ) = calls.flatMap (Call.views σ) :=
        List.flatMap_congr fun d hd => (hsame d hd).2.1
      have hnotes : calls.flatMap (Call.notes τ) = calls.flatMap (Call.notes σ) :=
        List.flatMap_congr fun d hd => (hsame d hd).2.2
      have hold : s.labels.map τ.view = s.labels.map σ.view :=
        List.map_congr_left fun w hw => (hlabels w hw).view_eq hτ
      simp only [Portrait.after, Sketch.portrait, Sketch.after, htexts, hviews', hnotes,
        getLast?_filterMap_cons, Option.or_assoc, Option.getD_or, List.flatMap_cons, List.map_append,
        hold, hviews, List.append_assoc]
    exact (ih hafter hlabels' (fun d hd => (hcalls d hd).after hτ (hsource d hd)) hshare').trans
      (congrArg _ hportrait)

example :
    (callAll (.object 2)
      [⟨.message, .int 3⟩, ⟨.notes, .text "ab"⟩, ⟨.labels, .none⟩, ⟨.message, .bool true⟩]
      ((Record.diagnostic (.severity .error)).perform .empty).2).view (.object 2) =
      some (.diagnostic (.severity .error) .none (.text "True") (.list [])
        (.list [.text "a", .text "b"])) := rfl

end Sequences

/-! ## Operations -/

/-- The operation of a session that takes a step. -/
def Method.operation : Method → (receiver argument : Literal) → Operation
  | .code => .withCode
  | .message => .withMessage
  | .labels => .withLabels
  | .labelsEach => .withLabelsEach
  | .notes => .withNotes
  | .notesEach => .withNotesEach

section Operations

variable {names : Names} {receiver argument : Literal}

theorem Method.act_operation (names : Names) (method : Method) (receiver argument : Literal) :
    (method.operation receiver argument).act names =
      Operation.step names receiver argument method.act := by
  cases method <;> rfl

/-- A step that succeeds gives its receiver back. -/
theorem reply_of_operation {method : Method} {reply : Reply}
    (h : ((method.operation receiver argument).act names).perform σ = (.ok reply, τ)) :
    ∃ v ρ, (receiver.eval names).perform σ = (.ok v, ρ) ∧ reply.value? = some v := by
  rw [Method.act_operation, Operation.step] at h
  obtain ⟨v, ρ, hv, h⟩ := exists_of_perform_bind σ h
  obtain ⟨w, ρ₁, -, h⟩ := exists_of_perform_bind ρ h
  obtain ⟨-, ρ₂, -, h⟩ := exists_of_perform_bind ρ₁ h
  obtain ⟨d, ρ₃, -, h⟩ := exists_of_perform_bind ρ₂ h
  obtain ⟨⟩ := h
  exact ⟨v, ρ, hv, rfl⟩

/-- An operation on a diagnostic is a call on it, after its argument has been made. -/
theorem calls_of_operation (hs : s.IsAt σ p) (method : Method)
    (hreceiver : (receiver.eval names).perform σ = (.ok (.object p.diagnostic), τ))
    (hargument : (argument.eval names).perform τ = (.ok v, ρ)) (hv : ρ.IsForeign p.Has v)
    {ρ' : Store} (rest : Store.Calls p
      (((method.operation receiver argument).act names).perform σ).2 history ρ') :
    σ.Calls p ((ρ, ⟨method, v⟩) :: history) ρ' := by
  have hcalm : σ.Calm ρ := ((Literal.isCalm_eval names receiver).perform_calm hreceiver).trans
    ((Literal.isCalm_eval names argument).perform_calm hargument)
  have alone : ∀ k, p.Has k → ρ.get? k = σ.get? k := by
    rintro k (rfl | rfl | rfl)
    · rw [hcalm.get?_eq hs.diagnostic nofun, hs.diagnostic]
    · rw [hcalm.get?_eq hs.labelList nofun, hs.labelList]
    · rw [hcalm.get?_eq hs.noteList nofun, hs.noteList]
  -- the reply only looks at what the call has left
  have hafter : (((method.operation receiver argument).act names).perform σ).2 =
      ((method.act (.object p.diagnostic) v).perform ρ).2 := by
    rw [Method.act_operation, Operation.step, perform_bind_of_ok _ hreceiver,
      perform_bind_of_ok _ hargument, perform_bind]
    rcases (method.act (.object p.diagnostic) v).perform ρ with ⟨e | _, ρ₁⟩
    · rfl
    · have hreading : (Reply.ofReceiver (.object p.diagnostic)).IsReading :=
        (isReading_view _).bind fun _ _ => rfl
      exact hreading ρ₁
  rw [hafter] at rest
  exact .meanwhile alone (.call ⟨method, v⟩ hv rest)

end Operations

/-- The store of a new error with its lists. -/
def newError : Store where
  cells := [.list [], .list [],
    .diagnostic ⟨.severity .error, .none, .text "", .object 0, .object 1⟩]
  nans := 0
  carried := []

end Builder

end Diagnostics
