import Diagnostics.Proofs.Action.Calm
import Diagnostics.Proofs.Validation.Drafts

/-!
# Records are made well

What is made of a draft that refers only to what there is holds what it was declared for
(`newLabel_crafts`, `newDiagnostic_crafts`), and its lists are new. Checks see to the drafts, so
every way to make a record keeps a store well-formed, whatever it is given and whether it fails or
not (`Record.keeps_ofData`, `Record.keeps_label`, `Record.keeps_diagnostic`).
-/

namespace Diagnostics

variable {α β : Type}

/-! ## What is made of drafts -/

namespace Store

variable {σ τ : Store} {l : Loc} {v : Value}

/-- Whether what is made is of some kind, in a well-formed store that has grown by it. -/
structure Crafts (σ : Store) (E : Store → Value → Prop) (made : Value × Store) : Prop where
  grows : σ.Grows made.2
  wellFormed : made.2.IsWellFormed
  kind : E made.2 made.1

/-- What exists is of the kind it is referred to for, and what is made is of the kind it is made
for. -/
theorem build_crafts {E : Store → Value → Prop} {F : α → Prop} {make : Store → α → Value × Store}
    (h : σ.IsWellFormed) (hmake : ∀ a, F a → σ.Crafts E (make σ a)) {d : Draft α}
    (hd : d.Refers (E σ) F) : σ.Crafts E (d.build make σ) := by
  cases d with
  | existing l => exact ⟨.refl σ, h, hd⟩
  | fresh a => exact hmake a hd

/-- A new byte range is one, and its ends are offsets. -/
theorem newByteRange_crafts (h : σ.IsWellFormed) (r : ByteRange) :
    σ.Crafts IsByteRange (σ.newByteRange r) := by
  let fields : RangeFields := ⟨.int r.start, .int r.stop⟩
  have hfields : fields.IsWellFormed := ⟨⟨r.start, rfl⟩, ⟨r.stop, rfl⟩⟩
  have hwell : (σ.alloc (.byteRange fields)).2.IsWellFormed :=
    h.alloc_other hfields (by simp)
  exact ⟨.alloc σ _, hwell, fields, get?_alloc_self σ _⟩

/-- **Labels.** A label is made with a style, a byte range and a message. -/
theorem newLabel_crafts (h : σ.IsWellFormed) {d : LabelDraft} (hd : d.Refers σ) :
    σ.Crafts IsLabel (σ.newLabel d) := by
  obtain ⟨hgrows, hτ, hrange⟩ := build_crafts h (fun r _ => newByteRange_crafts h r) hd
  rw [newLabel]
  generalize d.range.build newByteRange σ = made at hgrows hτ hrange ⊢
  obtain ⟨range, τ⟩ := made
  let fields : LabelFields := ⟨.style d.style, d.fileId, range, .text d.message⟩
  have hfields : fields.IsWellFormed τ := ⟨⟨d.style, rfl⟩, hrange, ⟨d.message, rfl⟩⟩
  have hwell : (τ.alloc (.label fields)).2.IsWellFormed := hτ.alloc_other hfields (by simp)
  exact ⟨hgrows.trans (.alloc τ _), hwell, fields, get?_alloc_self τ _⟩

/-- What is made one after another is all of one kind. -/
theorem buildAll_crafts {E : Store → Value → Prop} {F : Store → α → Prop}
    {make : Store → α → Value × Store}
    (hE : ∀ {σ τ : Store} v, σ.Retains τ → E σ v → E τ v)
    (hF : ∀ {σ τ : Store} a, σ.Retains τ → F σ a → F τ a)
    (hmake : ∀ {σ : Store} a, σ.IsWellFormed → F σ a → σ.Crafts E (make σ a)) {ds : List (Draft α)}
    (h : σ.IsWellFormed) (hds : ∀ d ∈ ds, d.Refers (E σ) (F σ)) :
    σ.Grows (σ.buildAll make ds).2 ∧ (σ.buildAll make ds).2.IsWellFormed ∧
      ∀ v ∈ (σ.buildAll make ds).1, E (σ.buildAll make ds).2 v := by
  induction ds generalizing σ with
  | nil => exact ⟨.refl σ, h, List.forall_mem_nil _⟩
  | cons d ds ih =>
    obtain ⟨hd, hds⟩ := List.forall_mem_cons.1 hds
    obtain ⟨hgrows, hwell, hkind⟩ := build_crafts h (fun a ha => hmake a h ha) hd
    have hrefers : ∀ e ∈ ds, e.Refers (E (d.build make σ).2) (F (d.build make σ).2) :=
      fun e he => (hds e he).imp (fun v => hE v hgrows.retains) fun a => hF a hgrows.retains
    obtain ⟨hmore, hwell', hkinds⟩ := ih hwell hrefers
    exact ⟨hgrows.trans hmore, hwell',
      List.forall_mem_cons.2 ⟨hE _ hmore.retains hkind, hkinds⟩⟩

/-- The lists of the diagnostics that there are lie before what is made next. -/
theorem IsWellFormed.lists_lt (h : σ.IsWellFormed) {k : Loc} {e : DiagnosticFields}
    (hk : σ.get? k = some (.diagnostic e)) {n : Loc} (hn : σ.size ≤ n) :
    e.labels ≠ .object n ∧ e.notes ≠ .object n := by
  obtain ⟨-, -, -, ⟨is, his, -⟩, ⟨js, hjs, -⟩⟩ := h.records k _ hk
  constructor
  · intro hlabels
    rw [hlabels] at his
    exact absurd (lt_size_of_get? his) (Nat.not_lt.2 hn)
  · intro hnotes
    rw [hnotes] at hjs
    exact absurd (lt_size_of_get? hjs) (Nat.not_lt.2 hn)

/-- **Diagnostics.** A diagnostic is made with lists of its own. -/
theorem newDiagnostic_crafts (h : σ.IsWellFormed) {d : DiagnosticDraft} (hd : d.Refers σ) :
    σ.Crafts (fun _ _ => True) (σ.newDiagnostic d) := by
  obtain ⟨hgrows, hwell, hlabels⟩ := buildAll_crafts (E := IsLabel) (F := LabelDraft.Refers)
    (fun v hτ => hτ.label v) (fun a hτ => LabelDraft.Refers.mono hτ.range)
    (fun a h ha => newLabel_crafts h ha) h hd
  rw [newDiagnostic]
  generalize σ.buildAll newLabel d.labels = made at hgrows hwell hlabels ⊢
  obtain ⟨vs, τ⟩ := made
  -- the two lists are made first, next to each other
  let τ₁ := (τ.alloc (.list vs)).2
  let τ₂ := (τ₁.alloc (.list (d.notes.map .text))).2
  let fields : DiagnosticFields := ⟨.severity d.severity, (d.code.map Value.text).getD .none,
    .text d.message, .object τ.size, .object τ₁.size⟩
  have hcalm₁ : τ.Calm τ₁ := .alloc τ rfl
  have hcalm₂ : τ₁.Calm τ₂ := .alloc τ₁ rfl
  have hsize : τ₁.size = τ.size + 1 := size_alloc τ _
  have hlist : τ₂.IsListOf τ₂.IsLabel (.object τ.size) := by
    refine ⟨vs, hcalm₂.get?_eq (get?_alloc_self τ _) nofun, fun v hv => ?_⟩
    exact (hcalm₁.trans hcalm₂).retains.label v (hlabels v hv)
  have hnotes : τ₂.IsListOf Value.IsTextual (.object τ₁.size) :=
    ⟨_, get?_alloc_self τ₁ _, List.forall_mem_map.2 fun s _ => rfl⟩
  have hcode : fields.code = .none ∨ fields.code.IsText := by
    rcases hcode : d.code with _ | s
    · exact .inl (by simp [fields, hcode])
    · exact .inr ⟨s, by simp [fields, hcode]⟩
  have hfields : fields.IsWellFormed τ₂ :=
    ⟨⟨d.severity, rfl⟩, hcode, ⟨d.message, rfl⟩, hlist, hnotes⟩
  have hτ₂ : (τ₂.alloc (.diagnostic fields)).2.IsWellFormed := by
    refine (hwell.calm (hcalm₁.trans hcalm₂)).alloc hfields ?_
    rintro _ ⟨⟩
    refine ⟨fun heq => ?_, fun k e hk => ?_⟩
    · exact Nat.succ_ne_self τ.size (hsize.symm.trans (Value.object.inj heq).symm)
    · have hk := (hcalm₁.trans hcalm₂).get?_of_record hk rfl
      exact ⟨(hwell.lists_lt hk (Nat.le_refl _)).2.symm,
        (hwell.lists_lt hk (by omega : τ.size ≤ τ₁.size)).1⟩
  have hgrows₁ : τ.Grows τ₁ := .alloc τ _
  have hgrows₂ : τ₁.Grows τ₂ := .alloc τ₁ _
  exact ⟨hgrows.trans (hgrows₁.trans (hgrows₂.trans (.alloc τ₂ _))), hτ₂, trivial⟩

end Store

/-! ## What checking uses up -/

namespace Validation

variable (source : Source) (σ : Store) (v : Value)

/-- A check uses up one-shot sequences at most. -/
theorem calm_spend (check : Store → Value → Check α) : σ.Calm (spend check σ v) := by
  rw [spend]
  split
  · exact .leave σ v _
  · exact .refl σ

/-- Checking labels uses up one-shot sequences at most. -/
theorem calm_spendLabels (entries : List (String × Value)) :
    σ.Calm (spendLabels source σ entries) := by
  rw [spendLabels]
  split
  · exact calm_spend σ _ _
  · exact .refl σ

/-- Checking a diagnostic uses up its labels and notes at most. -/
theorem calm_spendDiagnostic : σ.Calm (spendDiagnostic source σ v) := by
  rw [spendDiagnostic]
  split
  · next entries _ =>
    have hlabels := calm_spendLabels source σ entries
    rw [spendFields]
    split
    · exact hlabels
    · split
      · exact hlabels.trans (calm_spend _ _ _)
      · exact hlabels
  · exact .refl σ

end Validation

/-! ## Records -/

/-- Whether an action leaves well-formed stores well-formed. -/
def Action.Keeps (a : Action α) : Prop :=
  ∀ σ : Store, σ.IsWellFormed → (a.perform σ).2.IsWellFormed

/-- What changes no record keeps stores well-formed. -/
theorem Action.IsCalm.keeps {a : Action α} (ha : a.IsCalm) : a.Keeps := fun σ h => h.calm (ha σ)

/-- Two actions in a row keep stores well-formed if both do. -/
theorem Action.Keeps.bind {a : Action α} {f : α → Action β} (ha : a.Keeps) (hf : ∀ x, (f x).Keeps) :
    (a >>= f).Keeps := by
  intro σ h
  have hfirst := ha σ h
  rw [perform_bind]
  rcases hresult : a.perform σ with ⟨e | x, τ⟩
  · rw [hresult] at hfirst
    exact hfirst
  · rw [hresult] at hfirst
    exact hf x τ hfirst

namespace Record

open Store

/-- What is built after a check keeps stores well-formed if all that the check lets through does. -/
theorem keeps_build {make : Store → α → Value × Store} {check : Store → Check (Draft α)}
    {E : Store → Value → Prop} {F : Store → α → Prop} (title : String)
    (hcheck : ∀ σ, (check σ).Ensures (Draft.Refers (E σ) (F σ)))
    (hmake : ∀ {σ : Store} a, σ.IsWellFormed → F σ a → σ.Crafts E (make σ a)) :
    (build make title check).Keeps := by
  intro σ h
  simp only [Action.perform, build, ExceptT.run, StateT.run]
  rcases hresult : check σ with d | is | e
  · exact (build_crafts h (fun a ha => hmake a h ha) (hcheck σ d hresult)).wellFormed
  · exact h
  · exact h

/-- Converting a value to a byte range keeps stores well-formed. -/
theorem keeps_toByteRange (v : Value) : (toByteRange v).Keeps :=
  keeps_build "ByteRange" (fun σ => Validation.asByteRange_ensures σ v)
    fun r h _ => newByteRange_crafts h r

/-- Making a label of fields keeps stores well-formed. -/
theorem keeps_labelOfFields (fields : List (String × Value)) : (labelOfFields fields).Keeps :=
  keeps_build "Label" (E := IsLabel)
    (fun σ => (Validation.labelFields_ensures .values σ fields).map fun _ hd => hd)
    fun _ h hd => newLabel_crafts h hd

/-- Making a diagnostic of fields keeps stores well-formed. -/
theorem keeps_diagnosticOfFields (fields : List (String × Value)) :
    (diagnosticOfFields fields).Keeps :=
  keeps_build "Diagnostic" (E := fun _ _ => True)
    (fun σ => (Validation.diagnosticFields_ensures .values σ fields).map fun _ hd => hd)
    fun _ h hd => newDiagnostic_crafts h hd

/-- A diagnostic is made of a draft in a store in which the data has been used up. -/
theorem keeps_buildDiagnostic (source : Source) (v : Value) : (buildDiagnostic source v).Keeps := by
  intro σ h
  have hcalm := Validation.calm_spendDiagnostic source σ v
  have hτ := h.calm hcalm
  have hensures := Validation.diagnostic_ensures source σ v
  simp only [Action.perform, buildDiagnostic, ExceptT.run, StateT.run]
  rcases hresult : Validation.diagnostic source σ v with d | is | e
  · have hd := (hensures d hresult).imp (fun _ h => h)
      fun _ => DiagnosticDraft.Refers.mono hcalm.retains.range hcalm.retains.label
    exact (build_crafts (E := fun _ _ => True) hτ
      (fun _ ha => newDiagnostic_crafts hτ ha) hd).wellFormed
  · exact hτ
  · exact hτ

/-- **Validation.** Data that is taken for a record, or refused, does no harm. -/
theorem keeps_ofData (type : RecordType) (v : Value) : (ofData type v).Keeps := by
  cases type with
  | byteRange =>
    exact keeps_build _ (fun σ => Validation.byteRange_ensures .values σ v)
      fun r h _ => newByteRange_crafts h r
  | label =>
    exact keeps_build _ (E := IsLabel) (fun σ => Validation.label_ensures .values σ v)
      fun _ h hd => newLabel_crafts h hd
  | diagnostic => exact keeps_buildDiagnostic .values v

/-- Making a label keeps stores well-formed, also where its range is converted and the label then
refused. -/
theorem keeps_label (style fileId range : Value) : (label style fileId range).Keeps :=
  (keeps_toByteRange range).bind fun _ => keeps_labelOfFields _

/-- Making a diagnostic of a level keeps stores well-formed. -/
theorem keeps_diagnostic (severity : Value) : (diagnostic severity).Keeps :=
  keeps_diagnosticOfFields _

end Record

end Diagnostics
