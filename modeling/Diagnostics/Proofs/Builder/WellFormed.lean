import Diagnostics.Proofs.Builder.Extended
import Diagnostics.Proofs.Record.WellFormed

/-!
# Building keeps stores well-formed

Builders check nothing of what they set or append. They set texts and append texts to notes, so only
the labels that are given to them have to be labels (`keeps_withLabels`, `keeps_withLabelsEach`).
Items that have been appended stay when a later one fails, so it is shown of one item at a time that
it does no harm (`append_keeps`), and of many by induction (`takeEach_keeps`).
-/

namespace Diagnostics

variable {α β : Type}

namespace Store

variable {σ τ ρ : Store} {l : Loc} {v : Value}

/-- Whether two stores have the same records. -/
def SameRecords (σ τ : Store) : Prop :=
  ∀ l c, c.fields?.isSome → (σ.get? l = some c ↔ τ.get? l = some c)

theorem SameRecords.refl (σ : Store) : σ.SameRecords σ := fun _ _ _ => .rfl

theorem SameRecords.trans (h : σ.SameRecords τ) (h' : τ.SameRecords ρ) : σ.SameRecords ρ :=
  fun l c hc => (h l c hc).trans (h' l c hc)

/-- A calm change leaves the same records. -/
theorem Calm.sameRecords (h : σ.Calm τ) : σ.SameRecords τ := by
  intro l c hc
  refine ⟨fun hl => h.get?_eq hl ?_, fun hl => h.get?_of_record hl hc⟩
  rintro vs rfl
  cases hc

/-- Where an object that is no record is replaced by another one, records stay the same. -/
theorem sameRecords_update {c c' : Cell} (hl : σ.get? l = some c) (hc : c.fields? = none)
    (hc' : c'.fields? = none) : σ.SameRecords (σ.update l c') := by
  intro k x hx
  rw [get?_update hl]
  split
  · next hk =>
    rw [hk, hl]
    constructor
    · rintro ⟨⟩
      rw [hc] at hx
      cases hx
    · rintro ⟨⟩
      rw [hc'] at hx
      cases hx
  · exact .rfl

/-- A label stays one where the records are the same. -/
theorem SameRecords.isLabel (h : σ.SameRecords τ) (hv : σ.IsLabel v) : τ.IsLabel v := by
  obtain ⟨f, hf⟩ := hv
  obtain ⟨l, rfl, hl⟩ := exists_of_cell? hf
  exact ⟨f, (h l _ rfl).1 hl⟩

/-- The labels of a diagnostic are the same where the records are. -/
theorem SameRecords.isLabels (h : σ.SameRecords τ) (hv : τ.IsLabels v) : σ.IsLabels v := by
  obtain ⟨k, d, hk, hd⟩ := hv
  exact ⟨k, d, (h k _ rfl).2 hk, hd⟩

/-- The notes of a diagnostic are the same where the records are. -/
theorem SameRecords.isNotes (h : σ.SameRecords τ) (hv : τ.IsNotes v) : σ.IsNotes v := by
  obtain ⟨k, d, hk, hd⟩ := hv
  exact ⟨k, d, (h k _ rfl).2 hk, hd⟩

/-- Whether a value gives nothing but labels. -/
def GivesLabels (σ : Store) (v : Value) : Prop :=
  ∀ vs τ, σ.elements? v = some (vs, τ) → ∀ w ∈ vs, σ.IsLabel w

/-- The labels of a diagnostic are no notes, and its notes are no labels. -/
theorem IsWellFormed.not_isNotes (h : σ.IsWellFormed) (hv : σ.IsLabels v) : ¬ σ.IsNotes v := by
  obtain ⟨k, d, hk, rfl⟩ := hv
  rintro ⟨m, e, hm, he⟩
  exact h.apart k m d e hk hm he.symm

/-- The items of the labels of a diagnostic are labels. -/
theorem IsWellFormed.isLabel_of_mem (h : σ.IsWellFormed) {vs : List Value}
    (hl : σ.get? l = some (.list vs)) (hv : σ.IsLabels (.object l)) : ∀ v ∈ vs, σ.IsLabel v := by
  obtain ⟨k, d, hk, hd⟩ := hv
  obtain ⟨items, hitems, hall⟩ := (h.records k _ hk).labels
  rw [hd, cell?, hl] at hitems
  cases hitems
  exact hall

/-- All notes of a diagnostic are textual. -/
theorem IsWellFormed.isTextual_of_mem (h : σ.IsWellFormed) {vs : List Value}
    (hl : σ.get? l = some (.list vs)) (hv : σ.IsNotes (.object l)) : ∀ v ∈ vs, v.IsTextual := by
  obtain ⟨k, d, hk, hd⟩ := hv
  obtain ⟨items, hitems, hall⟩ := (h.records k _ hk).notes
  rw [hd, cell?, hl] at hitems
  cases hitems
  exact hall

/-- More items in a list, which are labels if it is for labels and texts if it is for notes. -/
theorem IsWellFormed.extend (h : σ.IsWellFormed) {vs ws : List Value}
    (hl : σ.get? l = some (.list vs)) (hlabels : σ.IsLabels (.object l) → ∀ w ∈ ws, σ.IsLabel w)
    (hnotes : σ.IsNotes (.object l) → ∀ w ∈ ws, w.IsTextual) :
    (σ.update l (.list (vs ++ ws))).IsWellFormed := by
  refine h.update_list hl (fun hv => ?_) fun hv => ?_
  · exact List.forall_mem_append.2 ⟨h.isLabel_of_mem hl hv, hlabels hv⟩
  · exact List.forall_mem_append.2 ⟨h.isTextual_of_mem hl hv, hnotes hv⟩

/-- More bytes where there are bytes. -/
theorem IsWellFormed.update_buffer (h : σ.IsWellFormed) {bs : List UInt8}
    (hl : σ.get? l = some (.buffer bs)) (cs : List UInt8) :
    (σ.update l (.buffer cs)).IsWellFormed :=
  h.update_record hl rfl (by simp [Cell.typeName]) trivial (by simp)

end Store

/-! ## Steps -/

namespace Action

variable {σ : Store} {a : Action α} {f : α → Action β} {P : Store → Prop}

/-- What holds after the first of two actions, and after the second where the first does not
fail. -/
theorem bind_leaves (ha : P (a.perform σ).2)
    (hf : ∀ x τ, a.perform σ = (.ok x, τ) → P ((f x).perform τ).2) :
    P ((a >>= f).perform σ).2 := by
  rw [perform_bind]
  rcases hresult : a.perform σ with ⟨e | x, τ⟩
  · rwa [hresult] at ha
  · exact hf x τ hresult

/-- What is done by one action after another, in terms of a relation between stores. -/
theorem bind_related {R : Store → Store → Prop} (htrans : ∀ {σ τ ρ}, R σ τ → R τ ρ → R σ ρ)
    (ha : R σ (a.perform σ).2)
    (hf : ∀ x τ, a.perform σ = (.ok x, τ) → R σ τ → R τ ((f x).perform τ).2) :
    R σ ((a >>= f).perform σ).2 := by
  refine bind_leaves (P := R σ) ha fun x τ hresult => ?_
  rw [hresult] at ha
  exact htrans ha (hf x τ hresult ha)

/-- What is done with elements that are used one at a time. -/
theorem takeEach_related {R : Store → Store → Prop} (hrefl : ∀ σ, R σ σ)
    (htrans : ∀ {σ τ ρ}, R σ τ → R τ ρ → R σ ρ) {source : Value}
    (hleave : ∀ (σ : Store) unread, R σ (σ.leave source unread)) {f : Value → Action β}
    (hf : ∀ w (σ : Store), R σ ((f w).perform σ).2) (vs : List Value) (σ : Store) :
    R σ ((takeEach source f vs).perform σ).2 := by
  induction vs generalizing σ with
  | nil => exact hrefl σ
  | cons w ws ih =>
    refine bind_related htrans (hleave σ ws) fun _ τ _ _ => ?_
    refine bind_related htrans (hf w τ) fun x ρ _ _ => ?_
    exact bind_related htrans (ih ρ) fun xs ρ' _ _ => hrefl ρ'

/-- Looking first leaves whatever is left then. -/
theorem IsReading.bind_leaves (ha : a.IsReading) (hσ : P σ)
    (hf : ∀ x, (a.perform σ).1 = .ok x → P ((f x).perform σ).2) : P ((a >>= f).perform σ).2 := by
  refine Action.bind_leaves ((ha σ).symm ▸ hσ) fun x τ hresult => ?_
  have hτ := ha σ
  rw [hresult] at hτ
  rw [show τ = σ from hτ]
  exact hf x (by rw [hresult])

/-- After a calm action. -/
theorem IsCalm.bind_leaves (ha : a.IsCalm) (h : σ.IsWellFormed)
    (hf : ∀ x τ, a.perform σ = (.ok x, τ) → σ.Calm τ → ((f x).perform τ).2.IsWellFormed) :
    ((a >>= f).perform σ).2.IsWellFormed :=
  Action.bind_leaves (h.calm (ha σ)) fun x τ hresult => hf x τ hresult (ha.perform_calm hresult)

/-- What is taken one by one is what the value gives. -/
theorem elements?_of_elements {v : Value} {vs : List Value} {τ : Store}
    (h : (elements v).perform σ = (.ok vs, τ)) : σ.elements? v = some (vs, τ) := by
  simp only [perform, elements, ExceptT.run, StateT.run] at h
  rcases helements : σ.elements? v with _ | ⟨ws, ρ⟩
  · rw [helements] at h
    cases h
  · rw [helements] at h
    cases h
    rfl

/-- What is taken all at once is what the value gives. -/
theorem elements?_of_takeAll {v : Value} {vs : List Value} {τ : Store}
    (h : (takeAll v).perform σ = (.ok vs, τ)) : ∃ ρ, σ.elements? v = some (vs, ρ) := by
  rw [takeAll, perform_bind] at h
  rcases hresult : (elements v).perform σ with ⟨e | ws, ρ⟩
  · rw [hresult] at h
    cases h
  · rw [hresult] at h
    cases h
    exact ⟨ρ, elements?_of_elements hresult⟩

/-- Elements that are used one at a time do no harm, if each of them does none and leaves the
records as they are. -/
theorem takeEach_keeps {P : Store → Value → Prop} {f : Value → Action β} (source : Value)
    (hP : ∀ {σ τ : Store} v, σ.SameRecords τ → P σ v → P τ v)
    (hf : ∀ {σ : Store} v, σ.IsWellFormed → P σ v →
      ((f v).perform σ).2.IsWellFormed ∧ σ.SameRecords ((f v).perform σ).2)
    (vs : List Value) {σ : Store} (h : σ.IsWellFormed) (hvs : ∀ v ∈ vs, P σ v) :
    ((takeEach source f vs).perform σ).2.IsWellFormed := by
  induction vs generalizing σ with
  | nil => exact h
  | cons v vs ih =>
    obtain ⟨hv, hvs⟩ := List.forall_mem_cons.1 hvs
    have hcalm := Store.Calm.leave σ source vs
    have hτ := h.calm hcalm
    obtain ⟨hwell, hsame⟩ := hf v hτ (hP v hcalm.sameRecords hv)
    rw [takeEach, perform_bind_of_ok _ (perform_leave _ _ _)]
    refine bind_leaves hwell fun x ρ hresult => ?_
    rw [hresult] at hwell hsame
    have hmore := ih hwell fun w hw => hP w (hcalm.sameRecords.trans hsame) (hvs w hw)
    refine bind_leaves hmore fun xs ρ' hrest => ?_
    rwa [hrest] at hmore

end Action

open Diagnostics.Action

namespace Attribute

variable {σ : Store}

/-- Whether a value is a byte can be told by looking. -/
theorem isReading_byteOf (v : Value) : (byteOf v).IsReading := by
  intro σ
  rw [byteOf]
  split
  · split
    · rfl
    · rfl
  · rfl

/-- One item is appended, or one byte. -/
theorem append_keeps (h : σ.IsWellFormed) {target w : Value}
    (hlabels : σ.IsLabels target → σ.IsLabel w) (hnotes : σ.IsNotes target → w.IsTextual) :
    ((append target w).perform σ).2.IsWellFormed ∧
      σ.SameRecords ((append target w).perform σ).2 := by
  rw [append, perform_bind_of_ok _ (perform_cell? _ _)]
  split
  · next l items hl =>
    refine ⟨h.extend hl (fun hv => ?_) fun hv => ?_, Store.sameRecords_update hl rfl rfl⟩
    · exact List.forall_mem_singleton.2 (hlabels hv)
    · exact List.forall_mem_singleton.2 (hnotes hv)
  · next l bs hl =>
    refine (isReading_byteOf w).bind_leaves (P := fun τ => τ.IsWellFormed ∧ σ.SameRecords τ)
      ⟨h, .refl σ⟩ fun b _ => ?_
    exact ⟨h.update_buffer hl _, Store.sameRecords_update hl rfl rfl⟩
  · rw [isReading_noAttribute]
    exact ⟨h, .refl σ⟩

end Attribute

namespace Builder

variable {σ : Store}

/-- The fields of a receiver are found by looking. -/
theorem isReading_receiverFields (receiver : Value) (step : String) :
    (receiverFields receiver step).IsReading := by
  intro σ
  rw [receiverFields, perform_bind_of_ok _ (perform_cell? _ _)]
  split
  · rfl
  · exact isReading_noAttribute receiver step σ

/-- A note is textual. -/
theorem isTextual_of_noteOf {v w : Value} (h : ((noteOf v).perform σ).1 = .ok w) :
    w.IsTextual := by
  rw [noteOf, perform_bind, (isReading_plainText v).perform_eq σ] at h
  rcases hresult : ((plainText v).perform σ).1 with e | s
  · rw [hresult] at h
    cases h
  · rw [hresult] at h
    cases h
    rfl

/-- The fields of a receiver are those of a diagnostic. -/
theorem exists_of_receiverFields {receiver : Value} {step : String} {d : DiagnosticFields}
    (h : ((receiverFields receiver step).perform σ).1 = .ok d) :
    ∃ l, σ.get? l = some (.diagnostic d) := by
  rw [receiverFields, perform_bind_of_ok _ (perform_cell? _ _)] at h
  split at h
  · next d' hcell =>
    cases h
    obtain ⟨l, -, hl⟩ := Store.exists_of_cell? hcell
    exact ⟨l, hl⟩
  · cases h

/-- Setting a code keeps stores well-formed: what is set is a text. -/
theorem keeps_withCode (receiver code : Value) : (withCode receiver code).Keeps := by
  intro σ h
  rw [withCode, perform_bind_of_ok _ (perform_cell? _ _)]
  split
  · next l d hl =>
    refine (isReading_plainText code).bind_leaves h fun s _ => ?_
    obtain ⟨hseverity, -, hmessage, hlabels, hnotes⟩ := h.records l _ hl
    refine h.update_record hl rfl (by simp [Cell.typeName])
      ⟨hseverity, .inr ⟨s, rfl⟩, hmessage, hlabels, hnotes⟩ ?_
    rintro _ ⟨⟩
    exact ⟨d, rfl, rfl, rfl⟩
  · rw [noStep, isReading_noAttribute]
    exact h

/-- Setting a message keeps stores well-formed: what is set is a text. -/
theorem keeps_withMessage (receiver message : Value) : (withMessage receiver message).Keeps := by
  intro σ h
  rw [withMessage, perform_bind_of_ok _ (perform_cell? _ _)]
  split
  · next l d hl =>
    refine (isReading_plainText message).bind_leaves h fun s _ => ?_
    obtain ⟨hseverity, hcode, -, hlabels, hnotes⟩ := h.records l _ hl
    refine h.update_record hl rfl (by simp [Cell.typeName])
      ⟨hseverity, hcode, ⟨s, rfl⟩, hlabels, hnotes⟩ ?_
    rintro _ ⟨⟩
    exact ⟨d, rfl, rfl, rfl⟩
  · next l f hl =>
    refine (isReading_plainText message).bind_leaves h fun s _ => ?_
    obtain ⟨hstyle, hrange, -⟩ := h.records l _ hl
    exact h.update_record hl rfl (by simp [Cell.typeName]) ⟨hstyle, hrange, ⟨s, rfl⟩⟩ (by simp)
  · rw [noStep, isReading_noAttribute]
    exact h

/-! ## What is appended -/

/-- Taking bytes changes no record. -/
theorem isCalm_takeBytes (values : Value) : (takeBytes values).IsCalm := by
  refine (isCalm_cell? values).bind fun c? => ?_
  split
  · exact isCalm_pure _
  · exact isCalm_pure _
  · refine isCalm_get.bind fun τ => ?_
    split
    · exact (isCalm_typeName values).bind fun _ => isCalm_throw _
    · refine (isCalm_elements values).bind fun vs => ?_
      exact isCalm_takeEach values (fun v => (Attribute.isReading_byteOf v).isCalm) vs

/-- Whatever is appended to a list for labels has to be labels. -/
theorem extend_keeps (h : σ.IsWellFormed) {target values : Value}
    (hlabels : σ.IsLabels target → σ.GivesLabels values) (hnotes : ¬ σ.IsNotes target) :
    ((extend target values).perform σ).2.IsWellFormed := by
  rw [extend, perform_bind_of_ok _ (perform_cell? _ _)]
  split
  · next l items hl =>
    refine (isCalm_takeAll values).bind_leaves h fun vs τ hresult hcalm => ?_
    have hsame := hcalm.sameRecords
    have hl' : τ.get? l = some (.list items) := hcalm.get?_eq hl (by simp)
    refine (h.calm hcalm).extend hl' (fun hv v hmem => ?_) fun hv => ?_
    · obtain ⟨ρ, helements⟩ := elements?_of_takeAll hresult
      exact hsame.isLabel (hlabels (hsame.isLabels hv) vs ρ helements v hmem)
    · exact absurd (hsame.isNotes hv) hnotes
  · next l bs hl =>
    refine (isCalm_takeBytes values).bind_leaves h fun cs τ _ hcalm => ?_
    exact (h.calm hcalm).update_buffer (hcalm.get?_eq hl (by simp)) _
  · rw [isReading_noAttribute]
    exact h

/-- **Labels, all at once.** -/
theorem withLabels_keeps (h : σ.IsWellFormed) {receiver labels : Value}
    (hlabels : σ.GivesLabels labels) : ((withLabels receiver labels).perform σ).2.IsWellFormed := by
  refine (isReading_receiverFields receiver _).bind_leaves h fun d hd => ?_
  obtain ⟨l, hl⟩ := exists_of_receiverFields hd
  exact extend_keeps h (fun _ => hlabels) (h.not_isNotes ⟨l, d, hl, rfl⟩)

section Each

variable {target source : Value} {make : Value → Action Value}

/-- What is made of one value is appended. -/
theorem appendMade_keeps (h : σ.IsWellFormed) (hmake : ∀ v, (make v).IsReading) {v : Value}
    (hmade : ∀ w, ((make v).perform σ).1 = .ok w →
      (σ.IsLabels target → σ.IsLabel w) ∧ (σ.IsNotes target → w.IsTextual)) :
    ((appendMade target make v).perform σ).2.IsWellFormed ∧
      σ.SameRecords ((appendMade target make v).perform σ).2 := by
  let P : Store → Prop := fun τ => τ.IsWellFormed ∧ σ.SameRecords τ
  have hσ : P σ := ⟨h, .refl σ⟩
  refine (isReading_growing target _).bind_leaves (P := P) hσ fun _ _ => ?_
  refine (hmake v).bind_leaves (P := P) hσ fun w hw => ?_
  exact Attribute.append_keeps h (hmade w hw).1 (hmade w hw).2

/-- What is made of elements is appended one at a time. -/
theorem appendFrom_keeps {P : Store → Value → Prop} (h : σ.IsWellFormed)
    (hmake : ∀ v, (make v).IsReading) (hP : ∀ {σ τ : Store} v, σ.SameRecords τ → P σ v → P τ v)
    (hmade : ∀ {σ : Store} v w, P σ v → ((make v).perform σ).1 = .ok w →
      (σ.IsLabels target → σ.IsLabel w) ∧ (σ.IsNotes target → w.IsTextual))
    (hsource : ∀ vs τ, σ.elements? source = some (vs, τ) → ∀ v ∈ vs, P σ v) :
    ((appendFrom target source make).perform σ).2.IsWellFormed := by
  refine (isReading_feedsItself target source).bind_leaves h fun isEndless _ => ?_
  refine (isCalm_elements source).bind_leaves h fun vs τ hresult hcalm => ?_
  have hvs : ∀ v ∈ vs, P τ v := fun v hv =>
    hP v hcalm.sameRecords (hsource vs τ (elements?_of_elements hresult) v hv)
  have hall := takeEach_keeps source hP
    (fun v hwell hv => appendMade_keeps hwell hmake fun w => hmade v w hv) vs (h.calm hcalm) hvs
  refine bind_leaves hall fun ws ρ hrest => ?_
  rw [hrest] at hall
  cases isEndless
  · exact hall
  · exact hall

end Each

/-- **Labels, one at a time.** -/
theorem withLabelsEach_keeps (h : σ.IsWellFormed) {receiver labels : Value}
    (hlabels : σ.GivesLabels labels) :
    ((withLabelsEach receiver labels).perform σ).2.IsWellFormed := by
  refine (isReading_receiverFields receiver _).bind_leaves h fun d hd => ?_
  obtain ⟨l, hl⟩ := exists_of_receiverFields hd
  have hnotes : ¬ σ.IsNotes d.labels := h.not_isNotes ⟨l, d, hl, rfl⟩
  refine appendFrom_keeps (P := fun τ v => τ.IsLabel v ∧ ¬ τ.IsNotes d.labels) h (fun _ _ => rfl)
    ?_ ?_ fun vs τ helements v hv => ⟨hlabels vs τ helements v hv, hnotes⟩
  · rintro σ τ v hsame ⟨hv, hnotes⟩
    exact ⟨hsame.isLabel hv, fun hτ => hnotes (hsame.isNotes hτ)⟩
  · rintro σ v _ ⟨hv, hnotes⟩ ⟨⟩
    exact ⟨fun _ => hv, fun hσ => absurd hσ hnotes⟩

/-- Appending notes keeps stores well-formed: what is appended is textual. -/
theorem appendNotes_keeps (h : σ.IsWellFormed) {l : Loc} {d : DiagnosticFields}
    (hl : σ.get? l = some (.diagnostic d)) (notes : Value) :
    ((appendFrom d.notes notes noteOf).perform σ).2.IsWellFormed := by
  have hlabels : ¬ σ.IsLabels d.notes := fun hv => h.not_isNotes hv ⟨l, d, hl, rfl⟩
  refine appendFrom_keeps (P := fun τ _ => ¬ τ.IsLabels d.notes) h isReading_noteOf ?_ ?_
    fun _ _ _ _ _ => hlabels
  · intro σ τ v hsame hσ hτ
    exact hσ (hsame.isLabels hτ)
  · intro σ v w hσ hw
    refine ⟨fun hv => absurd hv hσ, fun _ => ?_⟩
    exact isTextual_of_noteOf hw

/-- **Notes, all at once.** -/
theorem keeps_withNotes (receiver notes : Value) : (withNotes receiver notes).Keeps := by
  intro σ h
  refine (isReading_receiverFields receiver _).bind_leaves h fun d hd => ?_
  obtain ⟨l, hl⟩ := exists_of_receiverFields hd
  rw [extendFrom_noteOf]
  exact (isReading_growing d.notes _).bind_leaves h fun _ _ => appendNotes_keeps h hl notes

/-- **Notes, one at a time.** -/
theorem keeps_withNotesEach (receiver notes : Value) : (withNotesEach receiver notes).Keeps := by
  intro σ h
  refine (isReading_receiverFields receiver _).bind_leaves h fun d hd => ?_
  obtain ⟨l, hl⟩ := exists_of_receiverFields hd
  exact appendNotes_keeps h hl notes

end Builder

end Diagnostics
