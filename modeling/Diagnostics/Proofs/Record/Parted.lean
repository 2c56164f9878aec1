import Diagnostics.Proofs.Builder.WellFormed
import Diagnostics.Proofs.Exchange.WellFormed
import Diagnostics.Proofs.Store.Extends
import Diagnostics.Proofs.Store.Parted

/-!
# Records are made with lists of their own

A diagnostic that is made of data gets two new lists, whatever the data holds (`newDiagnostic_parts`).
So no list that is given with the data is passed on, neither where values are checked
(`Record.ofData_parts`) nor where diagnostics are exchanged (`Exchange.ofPlain_parts`,
`Exchange.load_parts`, `Exchange.loadAll_parts`).
-/

namespace Diagnostics

variable {α β : Type} {σ τ : Store} {p : Prop} {v : Value}

/-! ## One action after another -/

namespace Action

open Store

variable {a : Action α} {f : α → Action β}

/-- Two actions in a row pass no list on if neither does. -/
theorem bind_parts (ha : Parts p σ (a.perform σ).2)
    (hf : ∀ x τ, a.perform σ = (.ok x, τ) → Parts p τ ((f x).perform τ).2) :
    Parts p σ ((a >>= f).perform σ).2 :=
  bind_related (R := Parts p) .trans ha fun x τ hresult _ => hf x τ hresult

/-- A calm action makes no diagnostic and so passes no list on. -/
theorem IsCalm.parts (ha : a.IsCalm) (σ : Store) : Parts p σ (a.perform σ).2 := (ha σ).parts

/-- What is calm at first leaves it to the next action whether lists are passed on. -/
theorem IsCalm.bind_parts (ha : a.IsCalm)
    (hf : ∀ x τ, a.perform σ = (.ok x, τ) → Parts p τ ((f x).perform τ).2) :
    Parts p σ ((a >>= f).perform σ).2 :=
  Action.bind_parts (ha.parts σ) hf

end Action

/-! ## What is made of drafts -/

namespace Store

/-- What is made of a draft, where that is not there already. -/
theorem build_parts {make : Store → α → Value × Store} {E : Value → Prop} {F : α → Prop}
    (hmake : ∀ a, F a → Parts p σ (make σ a).2) {d : Draft α} (hd : d.Refers E F) :
    Parts p σ (d.build make σ).2 := by
  cases d with
  | existing l => exact .refl p σ
  | fresh a => exact hmake a hd

/-- A new byte range is no owner of lists. -/
theorem newByteRange_parts (σ : Store) (r : ByteRange) : Parts p σ (σ.newByteRange r).2 :=
  parts_alloc (by simp [Cell.typeName]) fun _ _ => nofun

/-- **Labels.** A label is made with a byte range, which is new or was there. -/
theorem newLabel_parts {d : LabelDraft} (hd : d.Refers σ) : Parts p σ (σ.newLabel d).2 := by
  obtain ⟨style, fileId, range, message⟩ := d
  refine (build_parts (fun r _ => newByteRange_parts σ r) hd).trans (parts_alloc ?_ ?_)
  · simp [Cell.typeName]
  · rintro - _ ⟨⟩
    cases range with
    | existing l => exact hd
    | fresh r => exact ⟨_, get?_alloc_self σ _⟩

/-- Drafts in a row pass no list on, where each of them is built in a store in which its condition
still holds. -/
theorem buildAll_parts {make : Store → α → Value × Store} {E : Store → Value → Prop}
    {F : Store → α → Prop} (hextends : ∀ (σ : Store) a, σ.Extends (make σ a).2)
    (hF : ∀ {σ τ : Store} a, σ.Retains τ → F σ a → F τ a)
    (hmake : ∀ {σ : Store} a, F σ a → Parts p σ (make σ a).2) {ds : List (Draft α)}
    (hds : ∀ d ∈ ds, d.Refers (E σ) (F σ)) : Parts p σ (σ.buildAll make ds).2 := by
  -- what drafts already refer to is no matter here
  have hfresh : ∀ d ∈ ds, d.Refers (fun _ => True) (F σ) :=
    fun d hd => (hds d hd).imp (fun _ _ => trivial) fun _ h => h
  clear hds
  induction ds generalizing σ with
  | nil => exact .refl p σ
  | cons d ds ih =>
    obtain ⟨hd, hds⟩ := List.forall_mem_cons.1 hfresh
    have hretains := (build_extends (hextends σ) d).grows.retains
    refine (build_parts (fun a ha => hmake a ha) hd).trans (ih fun e he => ?_)
    exact (hds e he).imp (fun _ h => h) fun a ha => hF a hretains ha

/-- **Diagnostics.** A diagnostic is made with lists of its own. -/
theorem newDiagnostic_parts {d : DiagnosticDraft} (hd : d.Refers σ) :
    Parts p σ (σ.newDiagnostic d).2 := by
  have hlabels : Parts p σ (σ.buildAll newLabel d.labels).2 :=
    buildAll_parts (E := IsLabel) (F := LabelDraft.Refers) newLabel_extends
      (fun _ hτ => .mono hτ.range) (fun _ h => newLabel_parts h) hd
  rw [newDiagnostic]
  generalize σ.buildAll newLabel d.labels = made at hlabels ⊢
  obtain ⟨vs, τ⟩ := made
  exact hlabels.trans (parts_newLists τ vs (d.notes.map .text) (.severity d.severity)
    ((d.code.map Value.text).getD .none) (.text d.message))

end Store

/-! ## Records -/

namespace Record

open Store

/-- What is built after a check passes no list on if this holds of all that the check lets through.
-/
theorem build_parts {make : Store → α → Value × Store} {check : Store → Check (Draft α)}
    {E : Store → Value → Prop} {F : Store → α → Prop} (title : String)
    (hcheck : (check σ).Ensures (Draft.Refers (E σ) (F σ)))
    (hmake : ∀ a, F σ a → Parts p σ (make σ a).2) :
    Parts p σ ((build make title check).perform σ).2 := by
  simp only [Action.perform, build, ExceptT.run, StateT.run]
  rcases hresult : check σ with d | is | e
  · exact Store.build_parts hmake (hcheck d hresult)
  · exact .refl p σ
  · exact .refl p σ

/-- A conversion makes a byte range at most. -/
theorem toByteRange_parts (v : Value) (σ : Store) : Parts p σ ((toByteRange v).perform σ).2 :=
  build_parts (F := fun _ _ => True) "ByteRange" (Validation.asByteRange_ensures σ v)
    fun r _ => newByteRange_parts σ r

/-- A label is made with a byte range at most. -/
theorem labelOfFields_parts (fields : List (String × Value)) (σ : Store) :
    Parts p σ ((labelOfFields fields).perform σ).2 :=
  build_parts "Label" (E := IsLabel) (F := LabelDraft.Refers)
    ((Validation.labelFields_ensures .values σ fields).map fun _ hd => hd)
    fun _ hd => newLabel_parts hd

/-- A diagnostic is made with lists of its own. -/
theorem diagnosticOfFields_parts (fields : List (String × Value)) (σ : Store) :
    Parts p σ ((diagnosticOfFields fields).perform σ).2 :=
  build_parts "Diagnostic" (E := fun _ _ => True) (F := DiagnosticDraft.Refers)
    ((Validation.diagnosticFields_ensures .values σ fields).map fun _ hd => hd)
    fun _ hd => newDiagnostic_parts hd

/-- A diagnostic is made of data that is checked first, which uses up one-shot sequences at most. -/
theorem buildDiagnostic_parts (source : Source) (v : Value) (σ : Store) :
    Parts p σ ((buildDiagnostic source v).perform σ).2 := by
  have hcalm := Validation.calm_spendDiagnostic source σ v
  have hensures := Validation.diagnostic_ensures source σ v
  simp only [Action.perform, buildDiagnostic, ExceptT.run, StateT.run]
  rcases hresult : Validation.diagnostic source σ v with d | is | e
  · have hd := (hensures d hresult).imp (fun _ h => h)
      fun _ => DiagnosticDraft.Refers.mono hcalm.retains.range hcalm.retains.label
    exact hcalm.parts.trans (Store.build_parts (fun _ ha => newDiagnostic_parts ha) hd)
  · exact hcalm.parts
  · exact hcalm.parts

/-- **Validation.** No list that is in data comes into the possession of a diagnostic. -/
theorem ofData_parts (type : RecordType) (v : Value) (σ : Store) :
    Parts p σ ((ofData type v).perform σ).2 := by
  cases type with
  | byteRange =>
    exact build_parts (F := fun _ _ => True) _ (Validation.byteRange_ensures .values σ v)
      fun r _ => newByteRange_parts σ r
  | label =>
    exact build_parts _ (E := IsLabel) (Validation.label_ensures .values σ v)
      fun _ hd => newLabel_parts hd
  | diagnostic => exact buildDiagnostic_parts .values v σ

/-- A label is made after its range has been converted. -/
theorem label_parts (style fileId range : Value) (σ : Store) :
    Parts p σ ((label style fileId range).perform σ).2 :=
  Action.bind_parts (toByteRange_parts range σ) fun _ τ _ => labelOfFields_parts _ τ

end Record

/-! ## Exchange -/

namespace Exchange

open Store

/-- A diagnostic that is taken from plain data has lists of its own. -/
theorem ofPlain_parts (data : Value) (σ : Store) : Parts p σ (ofPlain data σ).store := by
  have hparts := Record.ofData_parts (p := p) .diagnostic data σ
  rw [ofPlain]
  split
  · next hresult =>
    rw [hresult] at hparts
    exact hparts
  · next hresult =>
    rw [hresult] at hparts
    exact hparts

/-- Writing a diagnostic passes no list on. -/
theorem dump_parts (config : Config) (v : Value) (σ : Store) :
    Parts p σ (dump config v σ).store := by
  have hcalm := (isCalm_dumpText config v).bind fun text => (isCalm_summary v).bind fun s =>
    Action.isCalm_pure (text, LogEntry.serialized s.1 s.2.1 s.2.2 text.length)
  rw [dump]
  split
  · next hresult => exact (hcalm.perform_calm hresult).parts
  · next hresult => exact (hcalm.perform_calm hresult).parts

/-- Writing a list passes no list on. -/
theorem dumpAll_parts (config : Config) (v : Value) (σ : Store) :
    Parts p σ (dumpAll config v σ).store := by
  have hcalm := (Action.isCalm_takeAll v).bind fun vs => isCalm_toJsons config vs
  rw [dumpAll]
  split
  · next hresult => exact (hcalm.perform_calm hresult).parts
  · next hresult => exact (hcalm.perform_calm hresult).parts

/-- A refusal passes no list on. -/
theorem notLoaded_parts (text : Value) (title : String) (is : List Issue) (σ : Store) :
    Parts p σ (notLoaded text title is σ).store := by
  rw [notLoaded]
  split
  · next hresult => exact ((isCalm_length text).perform_calm hresult).parts
  · next hresult => exact ((isCalm_length text).perform_calm hresult).parts

/-- A diagnostic that is read has lists of its own. -/
theorem load_parts (text : Value) (σ : Store) : Parts p σ (load text σ).store := by
  rw [load]
  split
  · next d τ hvalid =>
    have hd := checkText_ensures (Validation.diagnostic_ensures .json) hvalid
    have hbuilt : Parts p τ (d.build newDiagnostic τ).2 :=
      Store.build_parts (fun _ ha => newDiagnostic_parts ha) hd
    have hτ : Parts p σ τ := (checkText_calm hvalid).parts
    generalize d.build newDiagnostic τ = made at hbuilt ⊢
    obtain ⟨v, ρ⟩ := made
    dsimp only
    split
    · next hresult =>
      exact hτ.trans (hbuilt.trans ((isCalm_summary v).perform_calm hresult).parts)
    · next hresult =>
      exact hτ.trans (hbuilt.trans ((isCalm_summary v).perform_calm hresult).parts)
  · exact notLoaded_parts text _ _ σ
  · next haborted => exact (checkText_calm haborted).parts

/-- Diagnostics that are read together have lists of their own, and the list of them is no
diagnostic's. -/
theorem loadAll_parts (text : Value) (σ : Store) : Parts p σ (loadAll text σ).store := by
  rw [loadAll]
  split
  · next ds τ hvalid =>
    have hbuilt : Parts p τ (τ.buildAll newDiagnostic ds).2 :=
      buildAll_parts (E := fun _ _ => True) newDiagnostic_extends
        (fun _ hτ => .mono hτ.range hτ.label) (fun _ ha => newDiagnostic_parts ha)
        (checkText_ensures diagnostics_ensures hvalid)
    exact (checkText_calm hvalid).parts.trans (hbuilt.trans (Calm.alloc _ rfl).parts)
  · next hinvalid => exact (checkText_calm hinvalid).parts
  · next haborted => exact (checkText_calm haborted).parts

end Exchange

end Diagnostics
