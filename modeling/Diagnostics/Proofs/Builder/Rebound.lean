import Diagnostics.Proofs.Builder.WellFormed
import Diagnostics.Proofs.Exchange.Written
import Diagnostics.Proofs.Validation.FromJson

/-!
# Rebinding

Rebinding copies the range of each label and makes a new record of the rest, which is checked like
any other data. Nothing that there was changes, so stores stay well-formed whatever is rebound
(`keeps_withFile`). A diagnostic in a well-formed store passes the checks, whatever the new file
(`withFile_returns`).
-/

namespace Diagnostics

variable {α β : Type}

/-! ## Actions that give a value -/

/-- Whether an action gives a value, which together with the store that is left has a property. -/
def Action.Returns (a : Action α) (σ : Store) (P : α → Store → Prop) : Prop :=
  ∃ x τ, a.perform σ = (.ok x, τ) ∧ P x τ

/-- **One action after another.** -/
theorem Action.Returns.bind {σ : Store} {a : Action α} {f : α → Action β} {P : α → Store → Prop}
    {Q : β → Store → Prop} (ha : a.Returns σ P) (hf : ∀ x τ, P x τ → (f x).Returns τ Q) :
    (a >>= f).Returns σ Q := by
  obtain ⟨x, τ, hx, hP⟩ := ha
  obtain ⟨y, ρ, hy, hQ⟩ := hf x τ hP
  exact ⟨y, ρ, (Action.perform_bind_of_ok σ hx).trans hy, hQ⟩

/-- What an action returns may be described more loosely. -/
theorem Action.Returns.imp {σ : Store} {a : Action α} {P Q : α → Store → Prop}
    (ha : a.Returns σ P) (h : ∀ x τ, P x τ → Q x τ) : a.Returns σ Q := by
  obtain ⟨x, τ, hx, hP⟩ := ha
  exact ⟨x, τ, hx, h x τ hP⟩

/-- An action whose outcome is known, and another one. -/
theorem Action.returns_bind_of_ok {σ τ : Store} {a : Action α} {f : α → Action β} {x : α}
    {P : β → Store → Prop} (ha : a.perform σ = (.ok x, τ)) (hf : (f x).Returns τ P) :
    (a >>= f).Returns σ P := by
  obtain ⟨y, ρ, hy, hP⟩ := hf
  exact ⟨y, ρ, (Action.perform_bind_of_ok σ ha).trans hy, hP⟩

open Diagnostics.Action

namespace Store

variable {σ τ : Store} {E : Store → Value → Prop} {v : Value}

/-- What is made in a store that has grown out of another. -/
theorem Grows.crafts (h : σ.Grows τ) {made : Value × Store} (hmade : τ.Crafts E made) :
    σ.Crafts E made :=
  ⟨h.trans hmade.grows, hmade.wellFormed, hmade.kind⟩

end Store

/-! ## Checks that pass -/

namespace Validation

variable {σ : Store} {v : Value}

/-- A text is found valid as one. -/
theorem text_of_isText (h : v.IsText) : ∃ s, text σ v = .valid s := by
  obtain ⟨s, rfl⟩ := h
  exact ⟨s, rfl⟩

/-- A level or a style is found valid as the text that it is. -/
theorem text_of_isTextual (h : v.IsTextual) : ∃ s, text σ v = .valid s := by
  obtain ⟨s, hs⟩ := Option.isSome_iff_exists.1 h
  exact ⟨s, by simp [text, hs]⟩

/-- A list is valid when each of its items is. -/
theorem listOf_of_isListOf {check : Store → Value → Check α} {P : Value → Prop}
    (h : σ.IsListOf P v) (hcheck : ∀ w, P w → ∃ a, check σ w = .valid a) (source : Source) :
    ∃ as, listOf source check σ v = .valid as := by
  obtain ⟨items, hitems, hP⟩ := h
  obtain ⟨l, rfl, hl⟩ := Store.exists_of_cell? hitems
  obtain ⟨as, has⟩ := exists_forall₂ fun w hw => hcheck w (hP w hw)
  exact ⟨as, by rw [listOf_of_list check hl, Check.each_valid has]⟩

/-- A byte range is taken as it is by a label. -/
theorem labelRange_of_isByteRange (h : σ.IsByteRange v) (source : Source) :
    ∃ l, v = .object l ∧ labelRange source σ v = .valid (.existing l) := by
  obtain ⟨r, hr⟩ := h
  obtain ⟨l, rfl, -⟩ := Store.exists_of_cell? hr
  exact ⟨l, rfl, by simp [labelRange, byteRange, record, hr]⟩

/-- A label is found valid as what it is. -/
theorem label_of_isLabel (h : σ.IsLabel v) (source : Source) :
    ∃ d, label source σ v = .valid d := by
  obtain ⟨f, hf⟩ := h
  obtain ⟨l, rfl, -⟩ := Store.exists_of_cell? hf
  exact ⟨.existing l, by simp [label, record, hf]⟩

/-- The fields of a well-formed label are valid, in any file. -/
theorem labelFields_of_isWellFormed {f : LabelFields} (hf : f.IsWellFormed σ) (fileId : Value)
    (source : Source) :
    ∃ d, labelFields source σ [("style", f.style), ("file_id", fileId), ("range", f.range),
      ("message", f.message)] = .valid d := by
  obtain ⟨⟨s, hs⟩, hrange, hmessage⟩ := hf
  obtain ⟨l, -, hl⟩ := labelRange_of_isByteRange hrange source
  obtain ⟨m, hm⟩ := text_of_isText (σ := σ) hmessage
  have hstyle : style σ f.style = .valid s := by simp [hs, style]
  exact ⟨_, labelFields_of_valid rfl hstyle rfl rfl hl (optional_valid rfl hm)⟩

/-- A code or none is found valid. -/
theorem textOrNone_of_code (h : v = .none ∨ v.IsText) : ∃ s?, textOrNone σ v = .valid s? := by
  rcases h with rfl | ⟨s, rfl⟩
  · exact ⟨none, rfl⟩
  · exact ⟨some s, rfl⟩

/-- A list is not used up by a check of its items. -/
theorem spend_of_isListOf {P : Value → Prop} (h : σ.IsListOf P v) (check : Store → Value → Check α) :
    spend check σ v = σ := by
  obtain ⟨items, hitems, -⟩ := h
  rw [spend]
  split
  · simp [Store.leave, hitems]
  · rfl

/-- The fields of a well-formed diagnostic are valid. -/
theorem diagnosticFields_of_isWellFormed {d : DiagnosticFields} (hd : d.IsWellFormed σ)
    (source : Source) :
    ∃ e, diagnosticFields source σ [("severity", d.severity), ("code", d.code),
      ("message", d.message), ("labels", d.labels), ("notes", d.notes)] = .valid e := by
  obtain ⟨⟨s, hs⟩, hcode, hmessage, hlabels, hnotes⟩ := hd
  obtain ⟨c, hc⟩ := textOrNone_of_code (σ := σ) hcode
  obtain ⟨m, hm⟩ := text_of_isText (σ := σ) hmessage
  obtain ⟨ls, hls⟩ := listOf_of_isListOf hlabels (fun _ hw => label_of_isLabel hw source) source
  obtain ⟨ns, hns⟩ := listOf_of_isListOf hnotes (fun _ => text_of_isTextual) source
  have hseverity : severity σ d.severity = .valid s := by simp [hs, severity]
  -- a list is not used up, so the notes are looked at in the same store as the labels
  have hspend : spendLabels source σ [("severity", d.severity), ("code", d.code),
      ("message", d.message), ("labels", d.labels), ("notes", d.notes)] = σ :=
    spend_of_isListOf hlabels _
  refine ⟨⟨s, c, m, ls, ns⟩, diagnosticFields_of_valid rfl hseverity (optional_valid rfl hc)
    (optional_valid rfl hm) (optional_valid rfl hls) ?_⟩
  rw [hspend]
  exact optional_valid rfl hns

end Validation

/-! ## Making records of what is well-formed -/

namespace Record

variable {σ : Store}

/-- What is found valid is built. -/
theorem perform_build (make : Store → α → Value × Store) (title : String)
    (check : Store → Check (Draft α)) {d : Draft α} (hd : check σ = .valid d) :
    (build make title check).perform σ = (.ok (d.build make σ).1, (d.build make σ).2) := by
  simp only [Action.perform, build, ExceptT.run, StateT.run, hd, Check.toExcept]

/-- What passes its check is made. -/
theorem build_returns {make : Store → α → Value × Store} {check : Store → Check (Draft α)}
    {E : Store → Value → Prop} {F : Store → α → Prop} {title : String} (h : σ.IsWellFormed)
    (hvalid : ∃ d, check σ = .valid d)
    (hcheck : (check σ).Ensures (Draft.Refers (E σ) (F σ)))
    (hmake : ∀ a, F σ a → σ.Crafts E (make σ a)) :
    (build make title check).Returns σ fun v τ => σ.Crafts E (v, τ) := by
  obtain ⟨d, hd⟩ := hvalid
  exact ⟨_, _, perform_build make title check hd, Store.build_crafts h hmake (hcheck d hd)⟩

/-- A label is made of the fields of another, in any file. -/
theorem labelOfFields_returns (h : σ.IsWellFormed) {f : LabelFields} (hf : f.IsWellFormed σ)
    (fileId : Value) :
    (labelOfFields [("style", f.style), ("file_id", fileId), ("range", f.range),
      ("message", f.message)]).Returns σ fun v τ => σ.Crafts Store.IsLabel (v, τ) := by
  obtain ⟨d, hd⟩ := Validation.labelFields_of_isWellFormed hf fileId .values
  refine build_returns h ⟨.fresh d, by rw [hd]; rfl⟩ ?_ fun _ => Store.newLabel_crafts h
  exact (Validation.labelFields_ensures .values σ _).map fun _ hd => hd

/-- A diagnostic is made of the fields of another. -/
theorem diagnosticOfFields_returns (h : σ.IsWellFormed) {d : DiagnosticFields}
    (hd : d.IsWellFormed σ) :
    (diagnosticOfFields [("severity", d.severity), ("code", d.code), ("message", d.message),
      ("labels", d.labels), ("notes", d.notes)]).Returns σ
      fun v τ => σ.Crafts (fun _ _ => True) (v, τ) := by
  obtain ⟨e, he⟩ := Validation.diagnosticFields_of_isWellFormed hd .values
  refine build_returns h ⟨.fresh e, by rw [he]; rfl⟩ ?_ fun _ => Store.newDiagnostic_crafts h
  exact (Validation.diagnosticFields_ensures .values σ _).map fun _ hd => hd

end Record

/-! ## Copies -/

namespace Builder

open Store

variable {σ : Store} {v : Value} {c : Cell}

/-- A copy is a new object, and carries what the other does. -/
theorem perform_copyOf (σ : Store) (v : Value) (c : Cell) :
    (copyOf v c).perform σ =
      (.ok (.object σ.size), (σ.alloc c).2.carryAll v (.object σ.size)) := rfl

/-- A copy of an object in a well-formed store holds what the object does. -/
theorem copyOf_crafts (h : σ.IsWellFormed) (hv : σ.cell? v = some c) :
    σ.Crafts (fun τ w => τ.cell? w = some c)
      (.object σ.size, (σ.alloc c).2.carryAll v (.object σ.size)) := by
  obtain ⟨l, rfl, hl⟩ := exists_of_cell? hv
  exact ⟨.alloc σ c, (h.alloc_copy hl).calm (.carryAll _ _ _), get?_alloc_self σ c⟩

/-- A copy can be made of any value, and keeps the store well-formed. -/
theorem copy_returns (h : σ.IsWellFormed) (v : Value) :
    (copy v).Returns σ fun w τ => σ.Crafts (fun _ _ => True) (w, τ) := by
  have same : (pure v : Action Value).Returns σ fun w τ => σ.Crafts (fun _ _ => True) (w, τ) :=
    ⟨v, σ, rfl, .refl σ, h, trivial⟩
  refine returns_bind_of_ok (perform_cell? σ v) ?_
  split
  · exact same
  · exact same
  · exact same
  · exact same
  · next c _ _ _ hv =>
    obtain ⟨hgrows, hwell, -⟩ := copyOf_crafts h hv
    exact ⟨_, _, perform_copyOf σ v c, hgrows, hwell, trivial⟩

/-- A copy of a byte range is a byte range. -/
theorem copyRecord_returns (h : σ.IsWellFormed) (hv : σ.IsByteRange v) :
    (copyRecord v).Returns σ fun w τ => σ.Crafts IsByteRange (w, τ) := by
  obtain ⟨r, hr⟩ := hv
  refine returns_bind_of_ok (perform_cell? σ v) ?_
  obtain ⟨hgrows, hwell, hcopy⟩ := copyOf_crafts h hr
  simp only [hr, Cell.fields?, Option.isSome_some, if_true]
  exact ⟨_, _, perform_copyOf σ v _, hgrows, hwell, r, hcopy⟩

/-! ## Rebinding does no harm -/

/-- Copying keeps stores well-formed. -/
theorem keeps_copy (v : Value) : (copy v).Keeps := by
  intro σ h
  obtain ⟨w, τ, hw, hcopy⟩ := copy_returns h v
  rw [hw]
  exact hcopy.wellFormed

/-- Copying a record keeps stores well-formed. -/
theorem keeps_copyRecord (v : Value) : (copyRecord v).Keeps := by
  intro σ h
  rw [copyRecord, perform_bind_of_ok _ (perform_cell? σ v)]
  split
  · next c hv =>
    split
    · exact (copyOf_crafts h hv).wellFormed
    · exact h
  · exact h

/-- Making a label anew in another file keeps stores well-formed. -/
theorem keeps_labelWithFile (f : LabelFields) (fileId : Value) : (labelWithFile f fileId).Keeps :=
  (keeps_copyRecord f.range).bind fun _ => Record.keeps_labelOfFields _

/-- Rebinding one label keeps stores well-formed if rebinding any value does. -/
theorem keeps_rebindOne {rebind : Value → Value → Action Value}
    (hrebind : ∀ fileId v, (rebind fileId v).Keeps) (fileId v : Value) :
    (rebindOne rebind fileId v).Keeps := by
  have rebound : (do rebind (← copy fileId) v : Action Value).Keeps :=
    (keeps_copy fileId).bind fun _ => hrebind _ v
  refine (isCalm_cell? v).keeps.bind fun c? => ?_
  split
  · exact (isCalm_noAttribute v _).keeps.bind fun _ => rebound
  · exact rebound

/-- What is done with each element keeps stores well-formed if it does so for any value. -/
theorem keeps_takeEach (source : Value) {f : Value → Action β} (hf : ∀ v, (f v).Keeps)
    (vs : List Value) : (takeEach source f vs).Keeps := by
  induction vs with
  | nil => exact (isCalm_pure []).keeps
  | cons v vs ih =>
    refine (isCalm_leave source vs).keeps.bind fun _ => (hf v).bind fun _ => ih.bind fun _ => ?_
    exact (isCalm_pure _).keeps

/-- Rebinding keeps stores well-formed at any depth, by induction on the depth. -/
theorem keeps_rebind (depth : Nat) (fileId v : Value) : (rebind depth fileId v).Keeps := by
  induction depth generalizing fileId v with
  | zero => exact (isCalm_throw _).keeps
  | succ depth ih =>
    refine (isCalm_cell? v).keeps.bind fun c? => ?_
    split
    · exact keeps_labelWithFile _ fileId
    · refine (isCalm_elements _).keeps.bind fun vs => ?_
      refine (keeps_takeEach _ (keeps_rebindOne ih fileId) vs).bind fun labels => ?_
      refine (isCalm_new rfl).keeps.bind fun labelList => (isCalm_takeAll _).keeps.bind fun ns => ?_
      exact (isCalm_new rfl).keeps.bind fun noteList => Record.keeps_diagnosticOfFields _
    · exact (isCalm_noAttribute v _).keeps

/-- Stores stay well-formed whatever is given another file. -/
theorem keeps_withFile (receiver fileId : Value) : (withFile receiver fileId).Keeps :=
  isCalm_get.keeps.bind fun σ => keeps_rebind (σ.size + 1) fileId receiver

/-! ## Rebinding succeeds -/

/-- A label gets another file. -/
theorem labelWithFile_returns (h : σ.IsWellFormed) {f : LabelFields} (hf : f.IsWellFormed σ)
    (fileId : Value) :
    (labelWithFile f fileId).Returns σ fun w τ => σ.Crafts IsLabel (w, τ) := by
  refine (copyRecord_returns h hf.range).bind fun range τ hcopy => ?_
  have hf' : LabelFields.IsWellFormed τ { f with range := range } :=
    ⟨hf.style, hcopy.kind, hf.message⟩
  exact (Record.labelOfFields_returns hcopy.wellFormed hf' fileId).imp
    fun _ _ => hcopy.grows.crafts

/-- What is done with the first element of a list, and then with the others. -/
theorem takeEach_cons_returns {source : Value} {f : Value → Action β} {vs items : List Value}
    {Q : β → Store → Prop} {R : List β → Store → Prop} (hsource : σ.cell? source = some (.list items))
    (hfirst : (f v).Returns σ Q)
    (hrest : ∀ x τ, Q x τ → (takeEach source f vs).Returns τ fun xs ρ => R (x :: xs) ρ) :
    (takeEach source f (v :: vs)).Returns σ R := by
  obtain ⟨l, rfl, hl⟩ := exists_of_cell? hsource
  refine returns_bind_of_ok (perform_leave σ _ vs) ?_
  rw [leave_list hl]
  refine hfirst.bind fun x τ hx => (hrest x τ hx).bind fun xs ρ hxs => ?_
  exact ⟨_, ρ, rfl, hxs⟩

/-- What takes the place of a label is a label. -/
theorem rebindOne_returns {rebind : Value → Value → Action Value}
    (hrebind : ∀ {σ : Store} fileId v, σ.IsWellFormed → σ.IsLabel v →
      (rebind fileId v).Returns σ fun w τ => σ.Crafts IsLabel (w, τ))
    (h : σ.IsWellFormed) (hv : σ.IsLabel v) (fileId : Value) :
    (rebindOne rebind fileId v).Returns σ fun w τ => σ.Crafts IsLabel (w, τ) := by
  obtain ⟨f, hf⟩ := hv
  refine returns_bind_of_ok (perform_cell? σ v) ?_
  simp only [hf, isRebindable, Bool.not_true, Bool.false_eq_true, if_false]
  refine (copy_returns h fileId).bind fun copied τ hcopy => ?_
  refine (hrebind copied v hcopy.wellFormed (hcopy.grows.retains.label v ⟨f, hf⟩)).imp ?_
  exact fun _ _ => hcopy.grows.crafts

/-- Labels get another file, each a copy of it. -/
theorem rebindEach_returns {rebind : Value → Value → Action Value}
    (hrebind : ∀ {σ : Store} fileId v, σ.IsWellFormed → σ.IsLabel v →
      (rebind fileId v).Returns σ fun w τ => σ.Crafts IsLabel (w, τ))
    (fileId : Value) {source : Value} {vs items : List Value} (h : σ.IsWellFormed)
    (hsource : σ.cell? source = some (.list items)) (hvs : ∀ v ∈ vs, σ.IsLabel v) :
    (takeEach source (rebindOne rebind fileId) vs).Returns σ
      fun ws τ => σ.Grows τ ∧ τ.IsWellFormed ∧ ∀ w ∈ ws, τ.IsLabel w := by
  induction vs generalizing σ with
  | nil => exact ⟨[], σ, rfl, .refl σ, h, List.forall_mem_nil _⟩
  | cons v vs ih =>
    obtain ⟨hv, hrest⟩ := List.forall_mem_cons.1 hvs
    refine takeEach_cons_returns hsource (rebindOne_returns hrebind h hv fileId) fun w τ hw => ?_
    refine (ih hw.wellFormed (hw.grows.retains.list _ _ hsource)
      fun u hu => hw.grows.retains.label u (hrest u hu)).imp ?_
    rintro ws ρ ⟨hmore, hwell, hws⟩
    exact ⟨hw.grows.trans hmore, hwell, List.forall_mem_cons.2 ⟨hmore.retains.label w hw.kind, hws⟩⟩

/-- A label that is rebound is a new label. -/
theorem rebind_label_returns (depth : Nat) (h : σ.IsWellFormed) (hv : σ.IsLabel v)
    (fileId : Value) :
    (rebind (depth + 1) fileId v).Returns σ fun w τ => σ.Crafts IsLabel (w, τ) := by
  obtain ⟨f, hf⟩ := hv
  rw [rebind]
  refine returns_bind_of_ok (perform_cell? σ v) ?_
  rw [hf]
  obtain ⟨l, -, hl⟩ := exists_of_cell? hf
  exact labelWithFile_returns h (h.records l _ hl) fileId

/-- A list gives its items, and nothing changes. -/
theorem perform_elements_of_cell? {items : List Value} (hv : σ.cell? v = some (.list items)) :
    (elements v).perform σ = (.ok items, σ) := by
  obtain ⟨l, rfl, hl⟩ := exists_of_cell? hv
  exact Exchange.perform_elements_list hl

/-- All items of a list can be taken, and nothing changes. -/
theorem perform_takeAll_of_cell? {items : List Value} (hv : σ.cell? v = some (.list items)) :
    (takeAll v).perform σ = (.ok items, σ) := by
  obtain ⟨l, rfl, hl⟩ := exists_of_cell? hv
  exact Exchange.perform_takeAll_list hl

/-- **Rebinding.** A diagnostic can be given any other file. -/
theorem withFile_returns (h : σ.IsWellFormed) {l : Loc} {d : DiagnosticFields}
    (hl : σ.get? l = some (.diagnostic d)) (fileId : Value) :
    (withFile (.object l) fileId).Returns σ
      fun w τ => σ.Crafts (fun _ _ => True) (w, τ) := by
  have hd : d.IsWellFormed σ := h.records l _ hl
  obtain ⟨items, hitems, hlabels⟩ := hd.labels
  obtain ⟨lines, hlines, hnotes⟩ := hd.notes
  -- the diagnostic is an object, so there is depth enough for its labels
  obtain ⟨n, hn⟩ := Nat.exists_eq_succ_of_ne_zero (Nat.ne_of_gt (Nat.zero_lt_of_lt
    (lt_size_of_get? hl)))
  refine returns_bind_of_ok (x := σ) (τ := σ) rfl ?_
  rw [rebind]
  refine returns_bind_of_ok (perform_cell? σ _) ?_
  rw [show σ.cell? (.object l) = some (.diagnostic d) from hl]
  refine returns_bind_of_ok (perform_elements_of_cell? hitems) ?_
  rw [hn]
  refine (rebindEach_returns (fun fileId v hτ hv => rebind_label_returns n hτ hv fileId) fileId h
    hitems hlabels).bind ?_
  rintro labels τ ⟨hgrows, hτ, hnew⟩
  -- both lists are made anew
  let τ₁ := (τ.alloc (.list labels)).2
  let τ₂ := (τ₁.alloc (.list lines)).2
  have hcalm₁ : τ.Calm τ₁ := .alloc τ rfl
  have hcalm₂ : τ₁.Calm τ₂ := .alloc τ₁ rfl
  have hgrows₁ : σ.Grows τ₁ := hgrows.trans (.alloc τ _)
  have hgrows₂ : σ.Grows τ₂ := hgrows₁.trans (.alloc τ₁ _)
  refine returns_bind_of_ok (perform_new τ _) ?_
  refine returns_bind_of_ok (perform_takeAll_of_cell? (hgrows₁.retains.list _ _ hlines)) ?_
  refine returns_bind_of_ok (perform_new τ₁ _) ?_
  have hlist : τ₂.IsListOf τ₂.IsLabel (.object τ.size) := by
    refine ⟨labels, hcalm₂.get?_eq (get?_alloc_self τ _) (by simp), fun w hw => ?_⟩
    exact (hcalm₁.trans hcalm₂).retains.label w (hnew w hw)
  have hd' : DiagnosticFields.IsWellFormed τ₂
      { d with labels := .object τ.size, notes := .object τ₁.size } :=
    ⟨hd.severity, hd.code, hd.message, hlist, lines, get?_alloc_self τ₁ _, hnotes⟩
  exact (Record.diagnosticOfFields_returns (hτ.calm (hcalm₁.trans hcalm₂)) hd').imp
    fun _ _ => hgrows₂.crafts

end Builder

end Diagnostics
