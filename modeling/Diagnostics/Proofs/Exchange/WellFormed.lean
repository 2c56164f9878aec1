import Diagnostics.Proofs.Record.WellFormed

/-!
# Exchange keeps stores well-formed

Writing diagnostics only looks at them, and reading them makes records of data that has been checked.
So neither does harm, whether it succeeds or not (`ofPlain_keeps`, `load_keeps`, `loadAll_keeps`,
`dump_keeps`, `dumpAll_keeps`).
-/

namespace Diagnostics.Exchange

open Diagnostics.Action

variable {σ : Store}

/-! ## Writing -/

/-- Counting the parts of a value changes none of them. -/
theorem isCalm_length (v : Value) : (length v).IsCalm := by
  refine (isCalm_cell? v).bind fun c? => ?_
  split
  · exact isCalm_pure _
  · exact isCalm_pure _
  · exact (isCalm_typeName _).bind fun _ => isCalm_throw _
  · split
    · exact isCalm_pure _
    · exact (isCalm_typeName _).bind fun _ => isCalm_throw _
  · exact (isCalm_typeName _).bind fun _ => isCalm_throw _

/-- The word of a level is carried by the level. -/
theorem isCalm_levelWord (v : Value) : (levelWord v).IsCalm := by
  refine (Attribute.isCalm_stored v _).bind fun w => ?_
  split
  · exact isCalm_pure _
  · exact isCalm_noAttribute v _

/-- A summary counts what a diagnostic holds without changing it. -/
theorem isCalm_summary (v : Value) : (summary v).IsCalm := by
  refine (Attribute.isCalm_stored v _).bind fun level => (isCalm_levelWord level).bind fun w => ?_
  refine (Attribute.isCalm_stored v _).bind fun ls => (isCalm_length ls).bind fun n => ?_
  refine (Attribute.isCalm_stored v _).bind fun ns => (isCalm_length ns).bind fun k => ?_
  exact isCalm_pure _

/-- Whether a value is written at all can be told from its cell. -/
theorem isCalm_writable (v : Value) (operation : String) : (writable v operation).IsCalm := by
  refine (isCalm_cell? v).bind fun c? => ?_
  split
  · split
    · exact isCalm_pure _
    · exact isCalm_noAttribute v _
  · exact isCalm_noAttribute v _

/-- Converting a diagnostic makes no objects, whether it can be converted or not. -/
theorem isCalm_toJson (config : Config) (v : Value) : (toJson config v).IsCalm := by
  refine (isCalm_writable v _).bind fun _ => (isCalm_view v).bind fun d => ?_
  split
  · exact isCalm_throw _
  · split
    · exact isCalm_ofExcept _
    · exact isCalm_pure _

/-- Diagnostics are converted one by one. -/
theorem isCalm_toJsons (config : Config) (vs : List Value) : (toJsons config vs).IsCalm := by
  induction vs with
  | nil => exact isCalm_pure []
  | cons v vs ih => exact (isCalm_toJson config v).bind fun _ => ih.bind fun _ => isCalm_pure _

/-- The text of a diagnostic is made from what it shows. -/
theorem isCalm_dumpText (config : Config) (v : Value) : (dumpText config v).IsCalm := by
  rw [dumpText]
  split
  on_goal 1 => refine (Attribute.isCalm_stored v _).bind fun code => ?_
  -- what follows is the same whether the code was looked for or not
  all_goals
    refine (isCalm_pure _).bind fun omitted => (isCalm_writable v _).bind fun _ => ?_
    refine (isCalm_ofExcept _).bind fun indent? => (isCalm_view v).bind fun d => ?_
    split
    · exact isCalm_throw _
    · exact isCalm_pure _

/-- The objects that are made of JSON are lists and tables, and no records. -/
theorem isCalm_make (j : Json) : (make j).IsCalm := fun σ => calm_ofJson σ j

/-- Writing a diagnostic keeps stores well-formed, whether it succeeds or not. -/
theorem dump_keeps (h : σ.IsWellFormed) (config : Config) (v : Value) :
    (dump config v σ).store.IsWellFormed := by
  have hcalm := (isCalm_dumpText config v).bind fun text => (isCalm_summary v).bind fun s =>
    isCalm_pure (text, LogEntry.serialized s.1 s.2.1 s.2.2 text.length)
  rw [dump]
  split
  · next hresult => exact h.calm (hcalm.perform_calm hresult)
  · next hresult => exact h.calm (hcalm.perform_calm hresult)

/-- Writing a list keeps stores well-formed, whether it succeeds or not. -/
theorem dumpAll_keeps (h : σ.IsWellFormed) (config : Config) (v : Value) :
    (dumpAll config v σ).store.IsWellFormed := by
  have hcalm := (isCalm_takeAll v).bind fun vs => isCalm_toJsons config vs
  rw [dumpAll]
  split
  · next hresult => exact h.calm (hcalm.perform_calm hresult)
  · next hresult => exact h.calm (hcalm.perform_calm hresult)

/-! ## Reading -/

/-- A diagnostic that is taken from plain data is well-formed, and so is what it leaves behind. -/
theorem ofPlain_keeps (h : σ.IsWellFormed) (data : Value) :
    (ofPlain data σ).store.IsWellFormed := by
  have hkept := Record.keeps_ofData .diagnostic data σ h
  rw [ofPlain]
  split
  · next hresult =>
    rw [hresult] at hkept
    exact hkept
  · next hresult =>
    rw [hresult] at hkept
    exact hkept

/-- A refusal only counts the characters of the text. -/
theorem notLoaded_keeps (h : σ.IsWellFormed) (text : Value) (title : String) (is : List Issue) :
    (notLoaded text title is σ).store.IsWellFormed := by
  rw [notLoaded]
  split
  · next hresult => exact h.calm ((isCalm_length text).perform_calm hresult)
  · next hresult => exact h.calm ((isCalm_length text).perform_calm hresult)

/-- Checking a text makes the value in it and changes nothing that was there before. -/
theorem checkText_calm {α : Type} {check : Store → Value → Check α} {v : Value} {c : Check α}
    {τ : Store} (h : checkText check σ v = (c, τ)) : σ.Calm τ := by
  rw [checkText] at h
  split at h
  · cases h
    exact .refl σ
  · next j _ =>
    have hcalm := calm_ofJson σ j
    rwa [(Prod.mk.inj h).2] at hcalm

/-- What is made sure of by a check of data is made sure of by the check of a text. -/
theorem checkText_ensures {α : Type} {check : Store → Value → Check α} {P : Store → α → Prop}
    (hcheck : ∀ σ v, (check σ v).Ensures (P σ)) {v : Value} {a : α} {τ : Store}
    (h : checkText check σ v = (.valid a, τ)) : P τ a := by
  rw [checkText] at h
  split at h
  · cases h
  · next j _ =>
    obtain ⟨hvalid, rfl⟩ := Prod.mk.inj h
    exact hcheck _ _ a hvalid

/-- Drafts that were found valid are made well. -/
theorem build_isWellFormed (h : σ.IsWellFormed) {d : Draft DiagnosticDraft}
    (hd : d.Refers (fun _ => True) (DiagnosticDraft.Refers σ)) :
    (d.build Store.newDiagnostic σ).2.IsWellFormed :=
  (Store.build_crafts (E := fun _ _ => True) h
    (fun _ ha => Store.newDiagnostic_crafts h ha) hd).wellFormed

/-- A diagnostic that is read from a text is well-formed. -/
theorem load_keeps (h : σ.IsWellFormed) (text : Value) : (load text σ).store.IsWellFormed := by
  rw [load]
  split
  · next d τ hvalid =>
    have hd := checkText_ensures (Validation.diagnostic_ensures .json) hvalid
    have hbuilt := build_isWellFormed (h.calm (checkText_calm hvalid)) hd
    generalize d.build Store.newDiagnostic τ = made at hbuilt ⊢
    obtain ⟨v, ρ⟩ := made
    dsimp only
    split
    · next hresult => exact hbuilt.calm ((isCalm_summary v).perform_calm hresult)
    · next hresult => exact hbuilt.calm ((isCalm_summary v).perform_calm hresult)
  · exact notLoaded_keeps h text _ _
  · next haborted => exact h.calm (checkText_calm haborted)

/-- What is found valid as a list of diagnostics refers to records that are there. -/
theorem diagnostics_ensures (σ : Store) (v : Value) :
    (Validation.listOf .json (Validation.diagnostic .json) σ v).Ensures
      fun ds => ∀ d ∈ ds, d.Refers (fun _ => True) (DiagnosticDraft.Refers σ) := by
  refine Validation.listOf_ensures .json σ v (Validation.diagnostic_ensures .json) ?_
  intro σ τ d hcalm hd
  refine hd.imp (fun _ h => h) fun _ => .mono (fun _ => hcalm.isByteRange) fun _ => hcalm.isLabel

/-- All diagnostics that are read from one text are well-formed. -/
theorem loadAll_keeps (h : σ.IsWellFormed) (text : Value) :
    (loadAll text σ).store.IsWellFormed := by
  rw [loadAll]
  split
  · next ds τ hvalid =>
    have hds := checkText_ensures diagnostics_ensures hvalid
    have hτ := h.calm (checkText_calm hvalid)
    obtain ⟨-, hbuilt, -⟩ := Store.buildAll_crafts (E := fun _ _ => True)
      (F := DiagnosticDraft.Refers) (fun _ _ _ => trivial)
      (fun _ hretains => .mono hretains.range hretains.label)
      (fun _ h hd => Store.newDiagnostic_crafts h hd) hτ hds
    exact hbuilt.calm (.alloc _ rfl)
  · next hinvalid => exact h.calm (checkText_calm hinvalid)
  · next haborted => exact h.calm (checkText_calm haborted)

end Diagnostics.Exchange
