import Diagnostics.Proofs.Builder.WellFormed
import Diagnostics.Proofs.Store.Spared

/-!
# Edits

A diagnostic that has been built can be edited further: by the steps that build it, by appending to
its lists, and by assigning the attributes of whatever it consists of (`Edit`). An edit works on the
object that it is applied to, on what that object owns, and on what it is given. Where all of this is
clear of some objects, these are spared (`Edit.spares`), however malformed the rest may be and
whether the edit succeeds or not.
-/

namespace Diagnostics

variable {α β : Type} {σ τ : Store} {P : Loc → Prop} {v w receiver target : Value} {vs : List Value}

namespace Builder

/-- A step that changes a diagnostic and gives it back. -/
inductive Method where
  | code
  | message
  | labels
  | labelsEach
  | notes
  | notesEach
  deriving DecidableEq, Repr

/-- What a step does. -/
def Method.act : Method → (receiver argument : Value) → Action Unit
  | code => withCode
  | message => withMessage
  | labels => withLabels
  | labelsEach => withLabelsEach
  | notes => withNotes
  | notesEach => withNotesEach

end Builder

/-- Something that is done to an object of a diagnostic. -/
inductive Edit where
  | step (method : Builder.Method) (argument : Value)
  | withFile (fileId : Value)
  | append (item : Value)
  | assign (name : String) (value : Value)

namespace Edit

/-- What an edit does. -/
def act : Edit → (receiver : Value) → Action Unit
  | step method argument, receiver => method.act receiver argument
  | withFile fileId, receiver => do let _ ← Builder.withFile receiver fileId
  | append item, receiver => Attribute.append receiver item
  | assign name value, receiver => Attribute.assign receiver name value

/-- Whether what an edit is given is clear of some objects; a step may take what that gives one by
one. -/
def IsClear (σ : Store) (P : Loc → Prop) : Edit → Prop
  | step _ argument => σ.GivesClear P argument
  | withFile fileId => σ.IsClear P fileId
  | append item => σ.IsClear P item
  | assign _ value => σ.IsClear P value

end Edit

open Store

/-! ## One action after another -/

namespace Action

variable {a : Action α} {f : α → Action β}

/-- What two actions spare one after the other. -/
theorem bind_spares (ha : σ.Spares P (a.perform σ).2)
    (hf : ∀ x τ, a.perform σ = (.ok x, τ) → σ.Spares P τ → τ.Spares P ((f x).perform τ).2) :
    σ.Spares P ((a >>= f).perform σ).2 :=
  bind_related (R := Spares P) .trans ha hf

/-- What only looks spares everything. -/
theorem IsReading.spares (ha : a.IsReading) : σ.Spares P (a.perform σ).2 := by
  rw [ha σ]
  exact .refl P σ

/-- Looking first spares what is spared then. -/
theorem IsReading.bind_spares (ha : a.IsReading)
    (hf : ∀ x, (a.perform σ).1 = .ok x → σ.Spares P ((f x).perform σ).2) :
    σ.Spares P ((a >>= f).perform σ).2 :=
  ha.bind_leaves (P := σ.Spares P) (.refl P σ) hf

/-- To give its elements a value makes new objects at most. -/
theorem elements_spares (hP : ∀ k, P k → k < σ.size) :
    σ.Spares P ((elements v).perform σ).2 := by
  simp only [perform, elements, ExceptT.run, StateT.run]
  rcases helements : σ.elements? v with _ | ⟨vs, τ⟩
  · exact .refl P σ
  · exact (Extends.of_elements? helements).spares hP

/-- All elements that were taken are those that the value gave, and nothing of it is left. -/
theorem exists_of_takeAll (h : (takeAll v).perform σ = (.ok vs, τ)) :
    ∃ ρ, σ.elements? v = some (vs, ρ) ∧ τ = ρ.leave v [] := by
  rw [takeAll, perform_bind] at h
  rcases hresult : (elements v).perform σ with ⟨e | ws, ρ⟩
  · rw [hresult] at h
    cases h
  · rw [hresult] at h
    cases h
    exact ⟨ρ, elements?_of_elements hresult, rfl⟩

/-- Taking all elements of a value that is clear of some objects spares these. -/
theorem takeAll_spares (hP : ∀ k, P k → k < σ.size) (hv : σ.IsClear P v) :
    σ.Spares P ((takeAll v).perform σ).2 := by
  refine bind_spares (elements_spares hP) fun vs τ _ hτ => ?_
  exact .leave (hτ.clear v hv) (List.forall_mem_nil _)

/-- Elements are used one at a time. -/
theorem takeEach_spares {f : Value → Action β} {source : Value}
    (hsource : σ.IsClear P source) (hvs : ∀ w ∈ vs, σ.IsClear P w)
    (hf : ∀ τ w, σ.Spares P τ → τ.IsClear P w → τ.Spares P ((f w).perform τ).2) :
    σ.Spares P ((takeEach source f vs).perform σ).2 := by
  induction vs generalizing σ with
  | nil => exact .refl P σ
  | cons v vs ih =>
    obtain ⟨hv, hvs⟩ := List.forall_mem_cons.1 hvs
    have hleave : σ.Spares P (σ.leave source vs) := .leave hsource hvs
    refine bind_spares hleave fun _ τ _ hτ => ?_
    refine bind_spares (hf τ v hτ (hτ.clear v hv)) fun x ρ _ hρ => ?_
    refine bind_spares (ih ((hτ.trans hρ).clear source hsource)
      (fun w hw => (hτ.trans hρ).clear w (hvs w hw)) fun ρ' w hρ' => ?_) fun xs ρ' _ _ => .refl P ρ'
    exact hf ρ' w ((hτ.trans hρ).trans hρ')

end Action

open Diagnostics.Action

/-! ## Attributes -/

namespace Attribute

/-- An assigned record has as its own what it had before and what is assigned. -/
theorem mem_own_of_assigned? {c c' : Cell} {name : String} (h : assigned? c name w = some c') :
    ∀ u ∈ c'.own, u ∈ c.own ∨ u = w := by
  intro u hu
  rw [assigned?.eq_def] at h
  split at h
  on_goal 12 => cases h
  all_goals
    obtain rfl := Option.some.inj h
    simp only [Cell.own, Cell.held, List.mem_cons, List.not_mem_nil, or_false] at hu ⊢
    tauto

/-- What has a field to assign is no tuple. -/
theorem ne_tuple_of_assigned? {c c' : Cell} {name : String} (h : assigned? c name w = some c') :
    ∀ vs, c ≠ .tuple vs := by
  rintro vs rfl
  simp [assigned?] at h

/-- A field is given a clear value. -/
theorem update_assigned_spares {l : Loc} {c c' : Cell} (name : String)
    (hl : σ.get? l = some c) (hPl : ¬ P l) (hw : σ.IsClear P w)
    (h : assigned? c name w = some c') : σ.Spares P (σ.update l c') := by
  refine .update hl hPl (ne_tuple_of_assigned? h) fun u hu => ?_
  exact (mem_own_of_assigned? h u hu).imp_right (by rintro rfl; exact hw)

/-- Assigning a field spares all objects that are not the one with the field. -/
theorem assign_spares {l : Loc} (hl : ¬ P l) (hw : σ.IsClear P w) (name : String) :
    σ.Spares P ((assign (.object l) name w).perform σ).2 := by
  rw [assign, perform_bind_of_ok _ (perform_cell? _ _)]
  split
  · next k c heq hc =>
    obtain rfl := Value.object.inj heq
    split
    · next c' hc' => exact update_assigned_spares name hc hl hw hc'
    · rw [assignOther]
      split
      · exact .carry hl name w
      · split
        · exact .refl P σ
        · split
          · exact .refl P σ
          · split
            · exact .refl P σ
            · exact .refl P σ
  · next heq => cases heq
  · next heq => cases heq
  · exact (isReading_noAttribute _ _).spares

/-- Appending spares all objects but the list that grows. -/
theorem append_spares (htarget : σ.IsClear P target) (hw : σ.IsClear P w) :
    σ.Spares P ((append target w).perform σ).2 := by
  rw [append, perform_bind_of_ok _ (perform_cell? _ _)]
  split
  · next l items hl =>
    have hitems : ∀ u ∈ items ++ [w], u ∈ items ∨ σ.IsClear P u := by
      intro u hu
      rcases List.mem_append.1 hu with hu | hu
      · exact .inl hu
      · exact .inr (List.mem_singleton.1 hu ▸ hw)
    exact .update hl htarget.not_mem (by simp) hitems
  · next l bs hl =>
    refine (isReading_byteOf w).bind_spares fun b _ => ?_
    exact .update hl htarget.not_mem (by simp) (List.forall_mem_nil _)
  · exact (isReading_noAttribute _ _).spares

end Attribute

/-! ## Steps -/

namespace Builder

/-- A text is clear of all objects. -/
theorem text_isClear (s : String) : σ.IsClear P (.text s) :=
  isClear_of_ne_object nofun

/-- Setting a code spares all but the receiver. -/
theorem withCode_spares (hreceiver : σ.IsClear P receiver) (code : Value) :
    σ.Spares P ((withCode receiver code).perform σ).2 := by
  rw [withCode, perform_bind_of_ok _ (perform_cell? _ _)]
  split
  · next l d hl =>
    refine (isReading_plainText code).bind_spares fun s _ => ?_
    exact Attribute.update_assigned_spares "code" hl hreceiver.not_mem (text_isClear s) rfl
  · exact (isReading_noAttribute _ _).spares

/-- Setting a message spares all but the receiver. -/
theorem withMessage_spares (hreceiver : σ.IsClear P receiver) (message : Value) :
    σ.Spares P ((withMessage receiver message).perform σ).2 := by
  rw [withMessage, perform_bind_of_ok _ (perform_cell? _ _)]
  split
  · next l d hl =>
    refine (isReading_plainText message).bind_spares fun s _ => ?_
    exact Attribute.update_assigned_spares "message" hl hreceiver.not_mem (text_isClear s) rfl
  · next l f hl =>
    refine (isReading_plainText message).bind_spares fun s _ => ?_
    exact Attribute.update_assigned_spares "message" hl hreceiver.not_mem (text_isClear s) rfl
  · exact (isReading_noAttribute _ _).spares

/-- Taking bytes of a value spares what its elements are clear of. -/
theorem takeBytes_spares (hP : ∀ k, P k → k < σ.size) (hv : σ.GivesClear P v) :
    σ.Spares P ((takeBytes v).perform σ).2 := by
  refine bind_spares (.refl P σ) fun c? τ hcell _ => ?_
  obtain ⟨-, rfl⟩ := Prod.mk.inj hcell
  split
  · exact .refl P σ
  · exact .refl P σ
  · refine bind_spares (.refl P σ) fun ρ τ hget _ => ?_
    cases hget
    split
    · exact .refl P σ
    · refine bind_spares (elements_spares hP) fun vs τ helements hτ => ?_
      refine takeEach_spares (hτ.clear v hv.1) (hv.elements? hP (elements?_of_elements helements)) ?_
      intro ρ w _ _
      exact (Attribute.isReading_byteOf w).spares

/-- All elements of a clear value are appended at once. -/
theorem extend_spares (hP : ∀ k, P k → k < σ.size) (htarget : σ.IsClear P target)
    (hv : σ.GivesClear P v) : σ.Spares P ((extend target v).perform σ).2 := by
  rw [extend, perform_bind_of_ok _ (perform_cell? _ _)]
  split
  · next l items hl =>
    refine bind_spares (takeAll_spares hP hv.1) fun vs τ hresult hτ => ?_
    have hl' : τ.get? l = some (.list items) :=
      ((isCalm_takeAll v).perform_calm hresult).get?_eq hl (by simp)
    have hvs : ∀ w ∈ vs, τ.IsClear P w := by
      obtain ⟨ρ, helements, rfl⟩ := exists_of_takeAll hresult
      have hρ : σ.Spares P ρ := (Extends.of_elements? helements).spares hP
      have hleave : ρ.Spares P (ρ.leave v []) := .leave (hρ.clear v hv.1) (List.forall_mem_nil _)
      exact fun w hw => hleave.clear w (hv.elements? hP helements w hw)
    refine .update hl' htarget.not_mem (by simp) fun u hu => ?_
    exact (List.mem_append.1 hu).imp_right (hvs u)
  · next l bs hl =>
    refine bind_spares (takeBytes_spares hP hv) fun cs τ hresult hτ => ?_
    have hl' : τ.get? l = some (.buffer bs) :=
      ((isCalm_takeBytes v).perform_calm hresult).get?_eq hl (by simp)
    exact .update hl' htarget.not_mem (by simp) (List.forall_mem_nil _)
  · exact (isReading_noAttribute _ _).spares

section Each

variable {make : Value → Action Value}

/-- Appending what is made of an element spares what that is clear of. -/
theorem appendMade_spares (hmake : ∀ v, (make v).IsReading) (htarget : σ.IsClear P target)
    (hmade : ∀ w, ((make v).perform σ).1 = .ok w → σ.IsClear P w) :
    σ.Spares P ((appendMade target make v).perform σ).2 :=
  (isReading_growing target _).bind_spares fun _ _ => (hmake v).bind_spares fun w hw =>
    Attribute.append_spares htarget (hmade w hw)

/-- What is made of the elements of a clear value is appended one at a time. -/
theorem appendFrom_spares (hP : ∀ k, P k → k < σ.size) (hmake : ∀ v, (make v).IsReading)
    (htarget : σ.IsClear P target) (hv : σ.GivesClear P v)
    (hmade : ∀ (τ : Store) u w, τ.IsClear P u → ((make u).perform τ).1 = .ok w →
      τ.IsClear P w) :
    σ.Spares P ((appendFrom target v make).perform σ).2 := by
  refine (isReading_feedsItself target v).bind_spares fun isEndless _ => ?_
  refine bind_spares (elements_spares hP) fun vs τ helements hτ => ?_
  refine bind_spares (takeEach_spares (hτ.clear v hv.1)
    (hv.elements? hP (elements?_of_elements helements)) ?_) fun _ ρ _ _ => ?_
  · intro ρ u hρ hu
    exact appendMade_spares hmake ((hτ.trans hρ).clear target htarget) fun w => hmade ρ u w hu
  · cases isEndless
    · exact .refl P ρ
    · exact .refl P ρ

end Each

/-- The lists of a diagnostic are clear if it is. -/
theorem isClear_of_receiverFields (hreceiver : σ.IsClear P receiver) {step : String}
    {d : DiagnosticFields} (h : ((receiverFields receiver step).perform σ).1 = .ok d) :
    σ.IsClear P d.labels ∧ σ.IsClear P d.notes := by
  rw [receiverFields, perform_bind_of_ok _ (perform_cell? _ _)] at h
  split at h
  · next d' hcell =>
    cases h
    obtain ⟨l, rfl, hl⟩ := exists_of_cell? hcell
    exact ⟨hreceiver.of_mem hl (by simp [Cell.own, Cell.held]),
      hreceiver.of_mem hl (by simp [Cell.own, Cell.held])⟩
  · cases h

/-- A note is a text, which is clear of all objects. -/
theorem made_note_isClear {u w : Value} (h : ((noteOf u).perform σ).1 = .ok w) :
    σ.IsClear P w := by
  rw [noteOf, perform_bind, (isReading_plainText u).perform_eq σ] at h
  rcases hresult : ((plainText u).perform σ).1 with e | s
  · rw [hresult] at h
    cases h
  · rw [hresult] at h
    cases h
    exact text_isClear s

/-- **Steps.** A step on what is clear spares everything else. -/
theorem Method.spares (hP : ∀ k, P k → k < σ.size) (method : Method)
    (hreceiver : σ.IsClear P receiver) (hv : σ.GivesClear P v) :
    σ.Spares P ((method.act receiver v).perform σ).2 := by
  cases method with
  | code => exact withCode_spares hreceiver v
  | message => exact withMessage_spares hreceiver v
  | labels =>
    refine (isReading_receiverFields receiver _).bind_spares fun d hd => ?_
    exact extend_spares hP (isClear_of_receiverFields hreceiver hd).1 hv
  | labelsEach =>
    refine (isReading_receiverFields receiver _).bind_spares fun d hd => ?_
    refine appendFrom_spares hP (fun _ _ => rfl) (isClear_of_receiverFields hreceiver hd).1 hv ?_
    rintro τ u _ hu ⟨⟩
    exact hu
  | notes =>
    refine (isReading_receiverFields receiver _).bind_spares fun d hd => ?_
    rw [extendFrom_noteOf]
    refine (isReading_growing d.notes _).bind_spares fun _ _ => ?_
    exact appendFrom_spares hP isReading_noteOf (isClear_of_receiverFields hreceiver hd).2 hv
      fun τ u w _ hw => made_note_isClear hw
  | notesEach =>
    refine (isReading_receiverFields receiver _).bind_spares fun d hd => ?_
    exact appendFrom_spares hP isReading_noteOf (isClear_of_receiverFields hreceiver hd).2 hv
      fun τ u w _ hw => made_note_isClear hw

/-! ## Rebinding -/

/-- A copy is new, so that all objects are spared. -/
theorem copy_spares (hP : ∀ k, P k → k < σ.size) (v : Value) :
    σ.Spares P ((copy v).perform σ).2 := by
  rw [copy, perform_bind_of_ok _ (perform_cell? _ _)]
  split
  · exact .refl P σ
  · exact .refl P σ
  · exact .refl P σ
  · exact .refl P σ
  · exact (Extends.copy σ v _).spares hP

/-- A copy of a record is new, so that all objects are spared. -/
theorem copyRecord_spares (hP : ∀ k, P k → k < σ.size) (v : Value) :
    σ.Spares P ((copyRecord v).perform σ).2 := by
  rw [copyRecord, perform_bind_of_ok _ (perform_cell? _ _)]
  split
  · split
    · exact (Extends.copy σ v _).spares hP
    · exact (isReading_noAttribute _ _).spares
  · exact (isReading_noAttribute _ _).spares

/-- What is made of data is new. -/
theorem recordOf_spares {make : Store → α → Value × Store} (title : String)
    {check : Store → Check (Draft α)} (hP : ∀ k, P k → k < σ.size)
    (hmake : ∀ a, σ.Extends (make σ a).2) :
    σ.Spares P ((Record.build make title check).perform σ).2 := by
  simp only [perform, Record.build, ExceptT.run, StateT.run]
  split
  · exact (build_extends hmake _).spares hP
  · exact .refl P σ

/-- A label in another file is new, so that all objects are spared. -/
theorem labelWithFile_spares (hP : ∀ k, P k → k < σ.size) (f : LabelFields) (fileId : Value) :
    σ.Spares P ((labelWithFile f fileId).perform σ).2 := by
  refine bind_spares (copyRecord_spares hP f.range) fun range τ _ hτ => ?_
  exact recordOf_spares "Label" (hτ.lt_size hP) fun d => newLabel_extends τ d

/-- What is clear gets another file; what is no label and no diagnostic does not. -/
theorem rebindOne_spares {rebind : Value → Value → Action Value}
    (hrebind : ∀ {σ : Store} fileId v, (∀ k, P k → k < σ.size) → σ.IsClear P v →
      σ.Spares P ((rebind fileId v).perform σ).2)
    (fileId : Value) (hP : ∀ k, P k → k < σ.size) (hv : σ.IsClear P v) :
    σ.Spares P ((rebindOne rebind fileId v).perform σ).2 := by
  rw [rebindOne, perform_bind_of_ok _ (perform_cell? _ _)]
  split
  · exact bind_spares (isReading_noAttribute v _).spares fun _ _ hresult _ => nomatch hresult
  · refine bind_spares (copy_spares hP fileId) fun copied τ _ hτ => ?_
    exact hrebind copied v (hτ.lt_size hP) (hτ.clear v hv)

/-- Labels are rebound one by one; if they are the pairs of a record, the first one ends it. -/
theorem rebindEach_spares {rebind : Value → Value → Action Value}
    (hrebind : ∀ {σ : Store} fileId v, (∀ k, P k → k < σ.size) → σ.IsClear P v →
      σ.Spares P ((rebind fileId v).perform σ).2)
    (fileId : Value) {source : Value} (hP : ∀ k, P k → k < σ.size) (hsource : σ.IsClear P source)
    (h : σ.elements? source = some (vs, τ)) :
    τ.Spares P ((takeEach source (rebindOne rebind fileId) vs).perform τ).2 := by
  have hτ : σ.Spares P τ := (Extends.of_elements? h).spares hP
  rcases hsource.elements? h with hclear | ⟨⟨c, hc, hrecord⟩, hpairs⟩
  · refine takeEach_spares (hτ.clear _ hsource) hclear fun ρ w hρ hw => ?_
    exact rebindOne_spares hrebind fileId ((hτ.trans hρ).lt_size hP) hw
  · rcases vs with _ | ⟨w, ws⟩
    · exact .refl P τ
    · have hleave : τ.leave source ws = τ := by
        refine leave_other (fun before hbefore => ?_) ws
        obtain rfl := Option.some.inj (hc.symm.trans hbefore)
        cases hrecord
      have hother : isRebindable (τ.cell? w) = false := by
        rcases hw : τ.cell? w with _ | d
        · rfl
        · obtain ⟨items, rfl⟩ := hpairs w List.mem_cons_self d hw
          rfl
      have hfails : (rebindOne rebind fileId w).perform τ =
          (.error (.noAttribute (τ.typeName w) "with_file"), τ) := by
        rw [rebindOne, perform_bind_of_ok _ (perform_cell? _ _), hother]
        rfl
      rw [takeEach, perform_bind_of_ok _ (perform_leave _ _ _), hleave,
        perform_bind_of_error _ hfails]
      exact .refl P τ

/-- Rebinding spares whatever the value is clear of: it makes new objects and uses up labels at
most. -/
theorem rebind_spares (depth : Nat) (fileId : Value) {v : Value} (hP : ∀ k, P k → k < σ.size)
    (hv : σ.IsClear P v) : σ.Spares P ((rebind depth fileId v).perform σ).2 := by
  induction depth generalizing σ fileId v with
  | zero => exact .refl P σ
  | succ depth ih =>
    rw [rebind, perform_bind_of_ok _ (perform_cell? _ _)]
    split
    · exact labelWithFile_spares hP _ fileId
    · next d hcell =>
      obtain ⟨l, rfl, hl⟩ := exists_of_cell? hcell
      have hlabels : σ.IsClear P d.labels := hv.of_mem hl (by simp [Cell.own, Cell.held])
      have hnotes : σ.IsClear P d.notes := hv.of_mem hl (by simp [Cell.own, Cell.held])
      refine bind_spares (elements_spares hP) fun vs τ hresult hτ => ?_
      refine bind_spares (rebindEach_spares (fun fileId v hP hv => ih fileId hP hv) fileId hP hlabels
        (elements?_of_elements hresult)) fun labels τ₁ _ hτ₁ => ?_
      have hσ₁ := hτ.trans hτ₁
      refine bind_spares ((Extends.alloc τ₁ _).spares (hσ₁.lt_size hP)) fun labelList τ₂ _ hτ₂ => ?_
      have hσ₂ := hσ₁.trans hτ₂
      refine bind_spares (takeAll_spares (hσ₂.lt_size hP) (hσ₂.clear _ hnotes)) ?_
      intro lines τ₃ _ hτ₃
      have hσ₃ := hσ₂.trans hτ₃
      refine bind_spares ((Extends.alloc τ₃ _).spares (hσ₃.lt_size hP)) fun noteList τ₄ _ hτ₄ => ?_
      have hP₄ := (hσ₃.trans hτ₄).lt_size hP
      exact recordOf_spares "Diagnostic" hP₄ fun e => newDiagnostic_extends τ₄ e
    · exact (isReading_noAttribute v _).spares

/-- **Rebinding.** What is given another file stays as it is, and so does the rest. -/
theorem withFile_spares (hP : ∀ k, P k → k < σ.size) (hreceiver : σ.IsClear P receiver)
    (fileId : Value) : σ.Spares P ((withFile receiver fileId).perform σ).2 := by
  refine bind_spares (.refl P σ) fun ρ τ hget _ => ?_
  cases hget
  exact rebind_spares _ fileId hP hreceiver

end Builder

/-- **Edits.** An edit of what is clear, with what is clear, spares everything else. -/
theorem Edit.spares (hP : ∀ k, P k → k < σ.size) (e : Edit) {l : Loc}
    (hl : σ.IsClear P (.object l)) (he : e.IsClear σ P) :
    σ.Spares P ((e.act (.object l)).perform σ).2 := by
  cases e with
  | step method v => exact method.spares hP hl he
  | withFile fileId =>
    exact bind_spares (Builder.withFile_spares hP hl fileId) fun _ τ _ _ => .refl P τ
  | append item => exact Attribute.append_spares hl he
  | assign name w => exact Attribute.assign_spares hl.not_mem he name

/-! ## Histories -/

/-- Whether a store came from another by edits of what one object owns, with values that are clear
of some objects. Between the edits new objects may be made. -/
inductive Store.Edited (root : Loc) (P : Loc → Prop) (σ : Store) : Store → Prop where
  | start : Edited root P σ σ
  | grown {τ ρ : Store} (before : Edited root P σ τ) (more : τ.Extends ρ) : Edited root P σ ρ
  | edited {τ : Store} (before : Edited root P σ τ) {l : Loc} (e : Edit)
    (owned : τ.Owns (.object root) l) (clear : e.IsClear τ P) :
    Edited root P σ ((e.act (.object l)).perform τ).2

/-- **Histories.** However a diagnostic that is clear of some objects is edited, these are spared. -/
theorem Store.Edited.spares {root : Loc} (h : σ.Edited root P τ) (hP : ∀ k, P k → k < σ.size)
    (hroot : σ.IsClear P (.object root)) : σ.Spares P τ := by
  induction h with
  | start => exact .refl P σ
  | grown _ more ih => exact ih.trans (more.spares (ih.lt_size hP))
  | @edited τ _ l e owned clear ih =>
    refine ih.trans (e.spares (ih.lt_size hP) (fun k hk => ?_) clear)
    exact ih.clear _ hroot k (owned.trans hk)

end Diagnostics
