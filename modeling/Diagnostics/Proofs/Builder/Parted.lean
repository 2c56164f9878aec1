import Diagnostics.Proofs.Builder.Rebound
import Diagnostics.Proofs.Builder.Steps
import Diagnostics.Proofs.Record.Parted

/-!
# Building passes no list on

The steps that build a diagnostic make no other one, and leave every diagnostic the lists that it has
(`Method.parts`). Rebinding makes diagnostics with lists of their own; but for each label it makes a
copy of the file, and a copy of a diagnostic has the very lists of the diagnostic. So rebinding passes
no list on unless it copies a diagnostic (`Store.CopiesNoDiagnostic`, `withFile_grafts`), and in any
case all that was there stays as it is.
-/

namespace Diagnostics

variable {α β : Type} {σ τ ρ : Store} {p : Prop} {v w target receiver fileId : Value} {l : Loc}
  {c : Cell}

open Store Diagnostics.Action

/-! ## Steps -/

/-- Appending passes no list on. -/
theorem Attribute.append_parts (target w : Value) (σ : Store) :
    Parts p σ ((append target w).perform σ).2 := by
  rw [append, perform_bind_of_ok _ (perform_cell? _ _)]
  split
  · next hl => exact parts_update_plain hl rfl rfl
  · next hl =>
    exact (isReading_byteOf w).bind_leaves (P := Parts p σ) (.refl p σ)
      fun b _ => parts_update_plain hl rfl rfl
  · exact (isCalm_noAttribute _ _).parts σ

namespace Builder

/-- Setting a code passes no list on. -/
theorem withCode_parts (receiver code : Value) (σ : Store) :
    Parts p σ ((withCode receiver code).perform σ).2 := by
  rw [withCode, perform_bind_of_ok _ (perform_cell? _ _)]
  split
  · next l d hl =>
    refine (isReading_plainText code).bind_leaves (P := Parts p σ) (.refl p σ) fun s _ => ?_
    refine parts_update hl rfl ?_ (by simp)
    rintro _ ⟨⟩
    exact ⟨d, rfl, rfl, rfl⟩
  · exact (isCalm_noAttribute _ _).parts σ

/-- Setting a message passes no list on. -/
theorem withMessage_parts (receiver message : Value) (σ : Store) :
    Parts p σ ((withMessage receiver message).perform σ).2 := by
  rw [withMessage, perform_bind_of_ok _ (perform_cell? _ _)]
  split
  · next l d hl =>
    refine (isReading_plainText message).bind_leaves (P := Parts p σ) (.refl p σ) fun s _ => ?_
    refine parts_update hl rfl ?_ (by simp)
    rintro _ ⟨⟩
    exact ⟨d, rfl, rfl, rfl⟩
  · next l f hl =>
    refine (isReading_plainText message).bind_leaves (P := Parts p σ) (.refl p σ) fun s _ => ?_
    refine parts_update hl rfl (by simp) ?_
    rintro _ ⟨⟩
    exact ⟨f, rfl, rfl⟩
  · exact (isCalm_noAttribute _ _).parts σ

/-- Extending a list passes no list on: only what it holds is copied. -/
theorem extend_parts (target values : Value) (σ : Store) :
    Parts p σ ((extend target values).perform σ).2 := by
  rw [extend, perform_bind_of_ok _ (perform_cell? _ _)]
  split
  · next l items hl =>
    refine (isCalm_takeAll values).bind_parts fun vs τ hresult => ?_
    have hl' : τ.get? l = some (.list items) :=
      ((isCalm_takeAll values).perform_calm hresult).get?_eq hl (by simp)
    exact parts_update_plain hl' rfl rfl
  · next l bs hl =>
    refine (isCalm_takeBytes values).bind_parts fun cs τ hresult => ?_
    have hl' : τ.get? l = some (.buffer bs) :=
      ((isCalm_takeBytes values).perform_calm hresult).get?_eq hl (by simp)
    exact parts_update_plain hl' rfl rfl
  · exact (isCalm_noAttribute _ _).parts σ

/-- Appending one by one passes no list on, as long as what is made of an element is made by
looking. -/
theorem appendFrom_parts {make : Value → Action Value} (hmake : ∀ v, (make v).IsReading)
    (target source : Value) (σ : Store) :
    Parts p σ ((appendFrom target source make).perform σ).2 := by
  have each : ∀ w (τ : Store), Parts p τ ((appendMade target make w).perform τ).2 := by
    intro w τ
    refine (isReading_growing target _).isCalm.bind_parts fun _ ρ _ => ?_
    exact (hmake w).isCalm.bind_parts fun u ρ' _ => Attribute.append_parts target u ρ'
  refine (isReading_feedsItself target source).isCalm.bind_parts fun isEndless τ _ => ?_
  refine (isCalm_elements source).bind_parts fun vs ρ _ => ?_
  have hall : Parts p ρ ((takeEach source (appendMade target make) vs).perform ρ).2 :=
    takeEach_related (.refl p) .trans (fun τ us => (Calm.leave τ source us).parts) each vs ρ
  refine bind_parts hall fun _ ρ' _ => ?_
  cases isEndless
  · exact .refl p ρ'
  · exact .refl p ρ'

/-- **Steps.** A step leaves every diagnostic the lists that it has. -/
theorem Method.parts (method : Method) (receiver v : Value) (σ : Store) :
    Parts p σ ((method.act receiver v).perform σ).2 := by
  cases method with
  | code => exact withCode_parts receiver v σ
  | message => exact withMessage_parts receiver v σ
  | labels =>
    refine (isReading_receiverFields receiver _).isCalm.bind_parts fun d τ _ => ?_
    exact extend_parts d.labels v τ
  | labelsEach =>
    refine (isReading_receiverFields receiver _).isCalm.bind_parts fun d τ _ => ?_
    exact appendFrom_parts (fun _ _ => rfl) d.labels v τ
  | notes =>
    refine (isReading_receiverFields receiver _).isCalm.bind_parts fun d τ _ => ?_
    rw [extendFrom_noteOf]
    refine (isReading_growing d.notes _).isCalm.bind_parts fun _ ρ _ => ?_
    exact appendFrom_parts isReading_noteOf d.notes v ρ
  | notesEach =>
    refine (isReading_receiverFields receiver _).isCalm.bind_parts fun d τ _ => ?_
    exact appendFrom_parts isReading_noteOf d.notes v τ

end Builder

/-! ## Copies -/

namespace Store

/-- Whether a value is no diagnostic: it is no object, or one of another type. -/
def IsOther (σ : Store) (v : Value) : Prop :=
  ∀ l, v = .object l → ∃ c, σ.get? l = some c ∧ c.typeName ≠ "Diagnostic"

/-- Whether rebinding copies no diagnostic: the receiver is none, or has no labels, or the file is
none. -/
def CopiesNoDiagnostic (σ : Store) (receiver fileId : Value) : Prop :=
  ∀ d, σ.cell? receiver = some (.diagnostic d) →
    σ.cell? d.labels = some (.list []) ∨ σ.IsOther fileId

/-- Whether what was done to a listed store made objects only, leaves it listed, and under some
condition passes no list on. -/
def Grafts (p : Prop) (σ τ : Store) : Prop :=
  σ.IsListed → τ.IsListed ∧ σ.Grows τ ∧ (p → σ.Passes τ)

/-- Where nothing was done, nothing was passed on. -/
theorem Grafts.refl (p : Prop) (σ : Store) : σ.Grafts p σ :=
  fun h => ⟨h, .refl σ, fun _ => h.passes_refl⟩

/-- What two actions graft they graft together. -/
theorem Grafts.trans (h : Grafts p σ τ) (h' : Grafts p τ ρ) : Grafts p σ ρ := by
  intro hσ
  obtain ⟨hτ, hgrows, hpasses⟩ := h hσ
  obtain ⟨hρ, hgrows', hpasses'⟩ := h' hτ
  exact ⟨hρ, hgrows.trans hgrows', fun hp => (hpasses hp).trans (hpasses' hp)⟩

/-- What grafts passes on no more than is grafted. -/
theorem Grafts.parts (h : Grafts p σ τ) : Parts p σ τ := fun hσ => ⟨(h hσ).1, (h hσ).2.2⟩

/-- What passes no list on and makes objects only grafts nothing else. -/
theorem Parts.grafts (h : Parts p σ τ) (hgrows : σ.Grows τ) : Grafts p σ τ :=
  fun hσ => ⟨(h hσ).1, hgrows, (h hσ).2⟩

/-- What is no diagnostic does not become one. -/
theorem IsOther.grows (h : σ.IsOther v) (hστ : σ.Grows τ) : τ.IsOther v := by
  intro l hl
  obtain ⟨c, hc, hne⟩ := h l hl
  exact ⟨c, hστ.get? hc, hne⟩

/-- A copy of a diagnostic has the same lists, so the store is listed still. -/
theorem IsListed.alloc_copy (h : σ.IsListed) (hl : σ.get? l = some c) :
    (σ.alloc c).2.IsListed := by
  have hretains : σ.Retains (σ.alloc c).2 := (Grows.alloc σ c).retains
  have source : ∀ {k c'}, (σ.alloc c).2.get? k = some c' → ∃ j, σ.get? j = some c' := by
    intro k c' hk
    rcases get?_of_alloc hk with rfl | hk
    · exact ⟨l, hl⟩
    · exact ⟨k, hk⟩
  refine ⟨fun k d hk => ?_, fun k d hk => ?_, fun k m d e hk hm => ?_, fun k f hk => ?_⟩
  · obtain ⟨j, hj⟩ := source hk
    obtain ⟨vs, hvs⟩ := h.labels j d hj
    exact ⟨vs, hretains.list _ vs hvs⟩
  · obtain ⟨j, hj⟩ := source hk
    obtain ⟨vs, hvs⟩ := h.notes j d hj
    exact ⟨vs, hretains.list _ vs hvs⟩
  · obtain ⟨i, hi⟩ := source hk
    obtain ⟨j, hj⟩ := source hm
    exact h.apart i j d e hi hj
  · obtain ⟨j, hj⟩ := source hk
    exact hretains.range _ (h.ranges j f hj)

/-- A copy of anything passes no list on, if it is no diagnostic. -/
theorem copy_grafts (hv : σ.cell? v = some c) (hp : p → c.typeName ≠ "Diagnostic") :
    Grafts p σ ((σ.alloc c).2.carryAll v (.object σ.size)) := by
  obtain ⟨l, rfl, hl⟩ := exists_of_cell? hv
  intro hσ
  have hcarry := Calm.carryAll (σ.alloc c).2 (.object l) (.object σ.size)
  refine ⟨(hcarry.parts (p := True) (hσ.alloc_copy hl)).1, Grows.alloc σ c, fun hp' => ?_⟩
  have hcopy : Parts True σ (σ.alloc c).2 :=
    parts_alloc (hp hp') fun _ f hf => hσ.ranges l f (hf ▸ hl)
  exact ((hcopy.trans hcarry.parts) hσ).2 trivial

end Store

/-! ## Rebinding -/

namespace Action

variable {a : Action α} {f : α → Action β}

/-- One action after another grafts as both do, the second in a listed store that has grown. -/
theorem bind_grafts (ha : Grafts p σ (a.perform σ).2)
    (hf : ∀ x τ, a.perform σ = (.ok x, τ) → τ.IsListed → σ.Grows τ →
      Grafts p τ ((f x).perform τ).2) :
    Grafts p σ ((a >>= f).perform σ).2 := by
  intro hσ
  refine bind_leaves (P := fun ρ => ρ.IsListed ∧ σ.Grows ρ ∧ (p → σ.Passes ρ)) (ha hσ) ?_
  intro x τ hresult
  rw [hresult] at ha
  obtain ⟨hτ, hgrows, -⟩ := ha hσ
  exact ha.trans (hf x τ hresult hτ hgrows) hσ

/-- What only looks grafts nothing. -/
theorem IsReading.grafts (ha : a.IsReading) (σ : Store) : Grafts p σ (a.perform σ).2 := by
  rw [ha σ]
  exact .refl p σ

end Action

/-- Building a draft makes objects only. -/
theorem Record.build_grows {make : Store → α → Value × Store} (title : String)
    (check : Store → Check (Draft α)) (hmake : ∀ a, σ.Extends (make σ a).2) :
    σ.Grows ((build make title check).perform σ).2 := by
  simp only [perform, build, ExceptT.run, StateT.run]
  split
  · exact (build_extends hmake _).grows
  · exact .refl σ

namespace Builder

/-- A copy of a value that is no diagnostic is none either. -/
theorem copy_grafts (hfile : p → σ.IsOther fileId) :
    Grafts p σ ((copy fileId).perform σ).2 ∧
      ∀ w τ, (copy fileId).perform σ = (.ok w, τ) → p → τ.IsOther w := by
  have same : Grafts p σ ((pure fileId : Action Value).perform σ).2 ∧
      ∀ w τ, (pure fileId : Action Value).perform σ = (.ok w, τ) → p → τ.IsOther w := by
    refine ⟨.refl p σ, ?_⟩
    rintro _ _ ⟨⟩
    exact hfile
  rw [copy, perform_bind_of_ok _ (perform_cell? _ _)]
  split
  · exact same
  · exact same
  · exact same
  · exact same
  · next c _ _ _ hc =>
    have hne : p → c.typeName ≠ "Diagnostic" := by
      intro hp
      obtain ⟨l, rfl, hl⟩ := exists_of_cell? hc
      obtain ⟨c', hc', hne⟩ := hfile hp l rfl
      rw [hl] at hc'
      cases hc'
      exact hne
    refine ⟨Store.copy_grafts hc hne, ?_⟩
    rintro _ _ ⟨⟩ hp _ ⟨⟩
    exact ⟨c, get?_alloc_self σ c, hne hp⟩

/-- A copy of a byte range is no owner of lists. -/
theorem copyRecord_grafts (hv : σ.IsByteRange v) :
    Grafts p σ ((copyRecord v).perform σ).2 := by
  obtain ⟨r, hr⟩ := hv
  rw [copyRecord, perform_bind_of_ok _ (perform_cell? _ _), hr]
  exact Store.copy_grafts hr fun _ => by simp [Cell.typeName]

/-- A label in another file is made with a byte range of its own. -/
theorem labelWithFile_grafts {f : LabelFields} (hf : σ.IsByteRange f.range) (fileId : Value) :
    Grafts p σ ((labelWithFile f fileId).perform σ).2 := by
  refine bind_grafts (copyRecord_grafts hf) fun range τ _ _ _ => ?_
  exact (Record.labelOfFields_parts _ τ).grafts (Record.build_grows "Label" _ (newLabel_extends τ))

/-- What takes the place of a label gets a copy of the file. -/
theorem rebindOne_grafts {rebind : Value → Value → Action Value}
    (hrebind : ∀ (σ : Store) w v, (p → σ.IsOther w) → Grafts p σ ((rebind w v).perform σ).2)
    (hfile : p → σ.IsOther fileId) (v : Value) :
    Grafts p σ ((rebindOne rebind fileId v).perform σ).2 := by
  obtain ⟨hcopy, hcopied⟩ := copy_grafts hfile
  rw [rebindOne, perform_bind_of_ok _ (perform_cell? _ _)]
  split
  · exact bind_grafts ((isReading_noAttribute v _).grafts σ)
      fun _ _ hresult _ _ => by cases hresult
  · refine bind_grafts hcopy fun copied τ hresult _ _ => ?_
    exact hrebind τ copied v (hcopied copied τ hresult)

/-- Labels are rebound one by one. -/
theorem rebindEach_grafts {rebind : Value → Value → Action Value}
    (hrebind : ∀ (σ : Store) w v, (p → σ.IsOther w) → Grafts p σ ((rebind w v).perform σ).2)
    (hfile : p → σ.IsOther fileId) {source : Value} (hsource : σ.IsList source)
    (vs : List Value) :
    Grafts p σ ((takeEach source (rebindOne rebind fileId) vs).perform σ).2 := by
  induction vs generalizing σ with
  | nil => exact .refl p σ
  | cons v vs ih =>
    obtain ⟨items, hitems⟩ := hsource
    obtain ⟨l, rfl, hl⟩ := exists_of_cell? hitems
    rw [takeEach, perform_bind_of_ok _ (perform_leave _ _ _), leave_list hl]
    refine bind_grafts (rebindOne_grafts hrebind hfile v) fun label τ _ _ hτ => ?_
    refine bind_grafts (ih (fun hp => (hfile hp).grows hτ) ⟨items, hτ.retains.list _ _ hitems⟩) ?_
    exact fun labels ρ _ _ _ => .refl p ρ

/-- Of a list everything is taken, and nothing changes. -/
theorem takeAll_grafts (hv : σ.IsList v) : Grafts p σ ((takeAll v).perform σ).2 := by
  obtain ⟨vs, hvs⟩ := hv
  rw [perform_takeAll_of_cell? hvs]
  exact .refl p σ

/-- What is given another file: a diagnostic gets new lists. -/
theorem rebind_grafts (depth : Nat) (hfile : p → σ.CopiesNoDiagnostic v fileId) :
    Grafts p σ ((rebind depth fileId v).perform σ).2 := by
  induction depth generalizing σ fileId v with
  | zero => exact .refl p σ
  | succ depth ih =>
    intro hσ
    rw [rebind, perform_bind_of_ok _ (perform_cell? _ _)]
    split
    · next f hf =>
      obtain ⟨l, rfl, hl⟩ := exists_of_cell? hf
      exact labelWithFile_grafts (hσ.ranges l f hl) fileId hσ
    · next d hd =>
      obtain ⟨l, rfl, hl⟩ := exists_of_cell? hd
      obtain ⟨vs, hvs⟩ := hσ.labels l d hl
      have hnotes := hσ.notes l d hl
      -- without labels no file is copied, and else it is no diagnostic
      have hlabels : Grafts p σ
          ((takeEach d.labels (rebindOne (rebind depth) fileId) vs).perform σ).2 := by
        rcases vs with _ | ⟨w, ws⟩
        · exact .refl p σ
        · refine rebindEach_grafts (fun τ w v hw => ih fun hp d _ => .inr (hw hp)) (fun hp => ?_)
            ⟨_, hvs⟩ _
          rcases hfile hp d hd with hnil | hother
          · rw [hvs] at hnil
            cases hnil
          · exact hother
      rw [perform_bind_of_ok _ (perform_elements_of_cell? hvs)]
      refine bind_grafts hlabels (fun labels τ₁ _ _ hτ₁ => ?_) hσ
      have alloc : ∀ (τ : Store) (items : List Value), Grafts p τ (τ.alloc (.list items)).2 :=
        fun τ items => (Calm.alloc τ rfl).parts.grafts (.alloc τ _)
      refine bind_grafts (alloc τ₁ labels) fun labelList τ₂ _ _ hτ₂ => ?_
      obtain ⟨lines, hlines⟩ := hnotes
      have hlist : τ₂.IsList d.notes := ⟨lines, (hτ₁.trans hτ₂).retains.list _ _ hlines⟩
      refine bind_grafts (takeAll_grafts hlist) fun lines τ₃ _ _ hτ₃ => ?_
      refine bind_grafts (alloc τ₃ lines) fun noteList τ₄ _ _ hτ₄ => ?_
      exact (Record.diagnosticOfFields_parts _ τ₄).grafts
        (Record.build_grows "Diagnostic" _ (newDiagnostic_extends τ₄))
    · exact (isReading_noAttribute v _).grafts σ hσ

/-- **Rebinding.** Only a copy of a diagnostic can have its lists; all else that is made has lists of
its own, and nothing that was there changes. -/
theorem withFile_grafts (receiver fileId : Value) (σ : Store) :
    Grafts (σ.CopiesNoDiagnostic receiver fileId) σ ((withFile receiver fileId).perform σ).2 := by
  have hget : (get : Action Store).perform σ = (.ok σ, σ) := rfl
  rw [withFile, perform_bind_of_ok σ hget]
  exact rebind_grafts (σ.size + 1) fun h => h

end Builder

end Diagnostics
