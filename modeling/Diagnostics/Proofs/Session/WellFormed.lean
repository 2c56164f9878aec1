import Diagnostics.Proofs.Attribute.Total
import Diagnostics.Proofs.Builder.Rebound
import Diagnostics.Proofs.Exchange.WellFormed

/-!
# Sessions keep stores well-formed

A request is admissible when it assigns no attribute, gives nothing but labels as labels, and appends
labels to labels and texts to notes (`Request.IsAdmissible`). Every admissible request leaves a
well-formed store well-formed, whether it succeeds or not (`Request.run_keeps`), so every store in
which a session can find itself is well-formed, and what the diagnostics in it compute is there
(`isWellFormed_of_admits`).
-/

namespace Diagnostics

open Diagnostics.Action

/-! ## Replies -/

namespace Reply

/-- A reply with a value shows it. -/
theorem isCalm_ofValue (v : Value) : (ofValue v).IsCalm :=
  (isCalm_view v).bind fun _ => isCalm_pure _

theorem isCalm_ofList (vs : List Value) : (ofList vs).IsCalm :=
  (isCalm_new rfl).bind fun v => isCalm_ofValue v

/-- A receiver is shown as it has become. -/
theorem isCalm_ofReceiver (v : Value) : (ofReceiver v).IsCalm :=
  (isCalm_view v).bind fun _ => isCalm_pure _

end Reply

/-! ## Ranges -/

theorem Bounds.isCalm_index (default : Int) (v : Value) : (index default v).IsCalm := by
  rw [index.eq_def]
  split
  · exact isCalm_pure _
  · exact isCalm_pure _
  · exact isCalm_throw _

namespace RangeFields

theorem isCalm_integer (v : Value) : (integer v).IsCalm := by
  rw [integer]
  split
  · exact isCalm_pure _
  · exact (isCalm_typeName v).bind fun _ => isCalm_throw _

theorem isCalm_asRange (r : RangeFields) : r.asRange.IsCalm :=
  (isCalm_integer r.start).bind fun _ => (isCalm_integer r.stop).bind fun _ => isCalm_new rfl

theorem isCalm_asSlice (r : RangeFields) : r.asSlice.IsCalm := isCalm_new rfl

theorem isCalm_sliceBytes (r : RangeFields) (bs : List UInt8) : (r.sliceBytes bs).IsCalm :=
  (Bounds.isCalm_index 0 r.start).bind fun _ => (Bounds.isCalm_index _ r.stop).bind fun _ =>
    isCalm_pure _

end RangeFields

/-! ## Operations -/

namespace Operation

/-- Values are viewed after all have been taken. -/
theorem isCalm_viewed (v : Value) : (viewed v).IsCalm :=
  (isCalm_takeAll v).bind fun vs => (isCalm_viewAll vs).bind fun _ => isCalm_pure _

/-- The first value that no later one beats is found by comparing what they show. -/
theorem isCalm_best (function : String) (r : Relation) (v : Value) :
    (best function r v).IsCalm := by
  refine (isCalm_viewed v).bind fun xs => ?_
  split
  · exact isCalm_throw _
  · exact (isCalm_ofExcept _).bind fun x => Reply.isCalm_ofValue x.1

/-- A member of an enumeration is found by its word. -/
theorem isCalm_member (enumeration : String) (ofWord? : String → Option Value) (v : Value) :
    (member enumeration ofWord? v).IsCalm := by
  rw [member]
  split
  · exact Reply.isCalm_ofValue _
  · exact (isCalm_literalText v).bind fun _ => isCalm_throw _

/-- Two ranks are compared after both have been looked up. -/
theorem isCalm_doesOutrank (a b : Value) : (doesOutrank a b).IsCalm := by
  rw [doesOutrank.eq_def]
  split
  · refine (Attribute.isCalm_stored b _).bind fun rank => (isCalm_view rank).bind fun d => ?_
    exact (isCalm_ofExcept _).bind fun _ => Reply.isCalm_ofValue _
  · exact isCalm_noAttribute a _

/-- A description makes a range and then only looks. -/
theorem exists_describe (v : Value) : ∃ f : Value → Action Reply,
    describe v = Record.toByteRange v >>= f ∧ ∀ range, (f range).IsCalm := by
  refine ⟨_, rfl, fun range => (isCalm_cell? range).bind fun c? => ?_⟩
  split
  · next r =>
    refine (Attribute.isCalm_length r).bind fun n => (Attribute.isCalm_isEmpty r).bind fun _ => ?_
    refine r.isCalm_asRange.bind fun w => (isCalm_view w).bind fun _ => ?_
    refine r.isCalm_asSlice.bind fun w => (isCalm_view w).bind fun _ => ?_
    exact (isCalm_view n).bind fun _ => (isCalm_view range).bind fun _ => isCalm_pure _
  · exact (isCalm_typeName v).bind fun _ => isCalm_throw _

/-- Describing a byte range keeps stores well-formed: it makes one byte range at most. -/
theorem keeps_describe (v : Value) : (describe v).Keeps := by
  obtain ⟨f, hdescribe, hf⟩ := exists_describe v
  rw [hdescribe]
  exact (Record.keeps_toByteRange v).bind fun range => (hf range).keeps

/-- A part of bytes is given by a range that is made and then only looked at. -/
theorem exists_partOf (range data : Value) : ∃ f : Value → Action Reply,
    partOf range data = Record.toByteRange range >>= f ∧ ∀ range, (f range).IsCalm := by
  refine ⟨_, rfl, fun range => (isCalm_cell? range).bind fun c? => (isCalm_cell? data).bind ?_⟩
  intro d?
  split
  · exact (RangeFields.isCalm_sliceBytes _ _).bind fun _ => Reply.isCalm_ofValue _
  · refine (RangeFields.isCalm_sliceBytes _ _).bind fun _ => ?_
    exact (isCalm_new rfl).bind fun w => Reply.isCalm_ofValue w
  · exact (isCalm_typeName data).bind fun _ => isCalm_throw _

/-- Slicing keeps stores well-formed: it makes one byte range at most. -/
theorem keeps_partOf (range data : Value) : (partOf range data).Keeps := by
  obtain ⟨f, hpart, hf⟩ := exists_partOf range data
  rw [hpart]
  exact (Record.keeps_toByteRange range).bind fun range => (hf range).keeps

/-- Whether an operation only looks at objects, and makes none but collections. -/
def IsLooking : Operation → Bool
  | toByteRange _ => false
  | sliceBytes .. => false
  | ofData .. => false
  | label .. => false
  | diagnostic _ => false
  | withCode .. => false
  | withMessage .. => false
  | withLabels .. => false
  | withLabelsEach .. => false
  | withNotes .. => false
  | withNotesEach .. => false
  | withFile .. => false
  | assign .. => false
  | append .. => false
  | _ => true

/-- Operations that only look at objects leave all records as they are. -/
theorem isCalm_act (names : Names) {o : Operation} (ho : o.IsLooking) : (o.act names).IsCalm := by
  have eval : ∀ l : Literal, (l.eval names).IsCalm := Literal.isCalm_eval names
  cases o with
  | severities => exact isCalm_pure _
  | styles => exact isCalm_pure _
  | severity v => exact (eval v).bind fun v => isCalm_member _ _ v
  | style v => exact (eval v).bind fun v => isCalm_member _ _ v
  | compare a b =>
    refine (eval a).bind fun a => (eval b).bind fun b => ?_
    exact (isCalm_view a).bind fun _ => (isCalm_view b).bind fun _ => isCalm_pure _
  | sort v falling =>
    refine (eval v).bind fun v => (isCalm_viewed v).bind fun xs => ?_
    exact (isCalm_ofExcept _).bind fun _ => Reply.isCalm_ofList _
  | greatest v => exact (eval v).bind fun v => isCalm_best _ _ v
  | least v => exact (eval v).bind fun v => isCalm_best _ _ v
  | distinct v =>
    refine (eval v).bind fun v => (isCalm_viewed v).bind fun xs => ?_
    split
    · exact (isCalm_throw _).bind fun _ => (isCalm_ofExcept _).bind fun _ => Reply.isCalm_ofList _
    · exact (isCalm_ofExcept _).bind fun _ => Reply.isCalm_ofList _
  | outranks a b => exact (eval a).bind fun a => (eval b).bind fun b => isCalm_doesOutrank a b
  | value v => exact (eval v).bind fun v => Reply.isCalm_ofValue v
  | same a b => exact (eval a).bind fun a => (eval b).bind fun b => Reply.isCalm_ofValue _
  | read v name =>
    exact (eval v).bind fun v => (Attribute.isCalm_read v name).bind fun w => Reply.isCalm_ofValue w
  | literal v =>
    exact (eval v).bind fun v => (isCalm_literalText v).bind fun _ => Reply.isCalm_ofValue _
  | plain v =>
    exact (eval v).bind fun v => (isCalm_plainText v).bind fun _ => Reply.isCalm_ofValue _
  | outline v settings =>
    refine (eval v).bind fun v => (isCalm_view v).bind fun d => ?_
    exact (isCalm_ofExcept _).bind fun _ => Reply.isCalm_ofValue _
  | parts v =>
    refine (eval v).bind fun v => (isCalm_view v).bind fun d => ?_
    exact (isCalm_ofExcept _).bind fun _ => isCalm_pure _
  | toJson config v =>
    refine (eval v).bind fun v => (Exchange.isCalm_toJson config v).bind fun j => ?_
    exact (Exchange.isCalm_make j).bind fun w => Reply.isCalm_ofValue w
  | _ => cases ho

end Operation

/-! ## What is admissible -/

section Admissible

variable (names : Names) (σ : Store)

/-- Whether what two literals describe, one after the other, has a property in the store that they
leave. -/
def Literal.Both (a b : Literal) (P : Store → Value → Value → Prop) : Prop :=
  ∀ v w τ ρ, (a.eval names).perform σ = (.ok v, τ) → (b.eval names).perform τ = (.ok w, ρ) → P ρ v w

/-- Whether an operation assigns no attribute, gives nothing but labels as labels, and appends
nothing but labels to labels and nothing but texts to notes. -/
def Operation.IsAdmissible : Operation → Prop
  | assign .. => False
  | withLabels r ls => Literal.Both names σ r ls fun τ _ labels => τ.GivesLabels labels
  | withLabelsEach r ls => Literal.Both names σ r ls fun τ _ labels => τ.GivesLabels labels
  | append v w => Literal.Both names σ v w fun τ list item =>
      (τ.IsLabels list → τ.IsLabel item) ∧ (τ.IsNotes list → item.IsTextual)
  | _ => True

/-- Whether a request is admissible; every exchange is. -/
def Request.IsAdmissible : Request → Prop
  | operation o => o.IsAdmissible names σ
  | transfer _ => True

end Admissible

/-- Whether each of some requests is admissible when its turn comes. -/
def Session.Admits (s : Session) : List (Request × Option String) → Prop
  | [] => True
  | (request, name?) :: rest =>
    request.IsAdmissible s.names s.store ∧ (s.step request name?).2.Admits rest

/-! ## What requests keep -/

section Requests

variable {names : Names} {σ : Store} {α : Type}

/-- What literals describe is known once they have been read. -/
theorem Literal.both_of_perform {τ ρ : Store} {a b : Literal} {v w : Value}
    {P : Store → Value → Value → Prop} (ha : (a.eval names).perform σ = (.ok v, τ))
    (hb : (b.eval names).perform τ = (.ok w, ρ)) (h : P ρ v w) : Literal.Both names σ a b P := by
  intro v' w' τ' ρ' ha' hb'
  rw [ha] at ha'
  cases ha'
  rw [hb] at hb'
  cases hb'
  exact h

/-- What is done with the values of two literals. -/
theorem Literal.both_keeps (h : σ.IsWellFormed) {a b : Literal} {f : Value → Value → Action α}
    (hf : Literal.Both names σ a b fun τ v w =>
      τ.IsWellFormed → ((f v w).perform τ).2.IsWellFormed) :
    ((do
      let v ← a.eval names
      let w ← b.eval names
      f v w).perform σ).2.IsWellFormed := by
  refine (isCalm_eval names a).bind_leaves h fun v τ hfirst hcalm => ?_
  refine (isCalm_eval names b).bind_leaves (h.calm hcalm) fun w ρ hsecond hcalm' => ?_
  exact hf v w τ ρ hfirst hsecond ((h.calm hcalm).calm hcalm')

/-- A calm action after another one. -/
theorem Action.IsCalm.after {β : Type} {a : Action α} {f : α → Action β} (hf : ∀ x, (f x).IsCalm)
    (ha : (a.perform σ).2.IsWellFormed) : ((a >>= f).perform σ).2.IsWellFormed := by
  refine Action.bind_leaves ha fun x τ hresult => ?_
  rw [hresult] at ha
  exact ha.calm (hf x τ)

namespace Operation

variable {f : Value → Value → Action Unit}

/-- A step of building keeps stores well-formed if it does so for any values. -/
theorem keeps_step (hf : ∀ v w, (f v w).Keeps) (r a : Literal) : (step names r a f).Keeps :=
  (Literal.isCalm_eval names r).keeps.bind fun v => (Literal.isCalm_eval names a).keeps.bind fun w =>
    (hf v w).bind fun _ => (Reply.isCalm_ofReceiver v).keeps

/-- A step of building keeps a store well-formed if it does so for the values that its literals have
there. -/
theorem step_keeps (h : σ.IsWellFormed) {r a : Literal}
    (hf : Literal.Both names σ r a fun τ v w =>
      τ.IsWellFormed → ((f v w).perform τ).2.IsWellFormed) :
    ((step names r a f).perform σ).2.IsWellFormed := by
  refine Literal.both_keeps h fun v w τ ρ hv hw hρ => ?_
  exact IsCalm.after (fun _ => Reply.isCalm_ofReceiver v) (hf v w τ ρ hv hw hρ)

/-- An operation keeps stores well-formed, one case for each. -/
theorem keeps_act (names : Names) (o : Operation) (h : σ.IsWellFormed)
    (ho : o.IsAdmissible names σ) : ((o.act names).perform σ).2.IsWellFormed := by
  by_cases hlooks : o.IsLooking
  · exact h.calm (isCalm_act names hlooks σ)
  have eval : ∀ l : Literal, (l.eval names).IsCalm := Literal.isCalm_eval names
  cases o with
  | toByteRange v => exact ((eval v).keeps.bind fun v => keeps_describe v) σ h
  | sliceBytes range data =>
    exact ((eval range).keeps.bind fun r => (eval data).keeps.bind fun d => keeps_partOf r d) σ h
  | ofData type data =>
    refine ((eval data).keeps.bind fun d => (Record.keeps_ofData type d).bind fun v => ?_) σ h
    exact (Reply.isCalm_ofValue v).keeps
  | label how file range =>
    refine ((eval how).keeps.bind fun how => (eval file).keeps.bind fun file =>
      (eval range).keeps.bind fun range => ?_) σ h
    exact (Record.keeps_label how file range).bind fun v => (Reply.isCalm_ofValue v).keeps
  | diagnostic level =>
    refine ((eval level).keeps.bind fun s => (Record.keeps_diagnostic s).bind fun v => ?_) σ h
    exact (Reply.isCalm_ofValue v).keeps
  | withCode r a => exact keeps_step Builder.keeps_withCode r a σ h
  | withMessage r a => exact keeps_step Builder.keeps_withMessage r a σ h
  | withLabels r ls =>
    refine step_keeps h fun v w τ ρ hv hw hρ => ?_
    exact Builder.withLabels_keeps hρ (ho v w τ ρ hv hw)
  | withLabelsEach r ls =>
    refine step_keeps h fun v w τ ρ hv hw hρ => ?_
    exact Builder.withLabelsEach_keeps hρ (ho v w τ ρ hv hw)
  | withNotes r a => exact keeps_step Builder.keeps_withNotes r a σ h
  | withNotesEach r a => exact keeps_step Builder.keeps_withNotesEach r a σ h
  | withFile r file =>
    refine ((eval r).keeps.bind fun r => (eval file).keeps.bind fun file => ?_) σ h
    exact (Builder.keeps_withFile r file).bind fun v => (Reply.isCalm_ofValue v).keeps
  | assign => exact ho.elim
  | append v w =>
    refine Literal.both_keeps h fun v w τ ρ hv hw hρ => ?_
    obtain ⟨hlabels, hnotes⟩ := ho v w τ ρ hv hw
    exact IsCalm.after (fun _ => Reply.isCalm_ofValue v)
      (Attribute.append_keeps hρ hlabels hnotes).1
  | _ => exact absurd rfl hlooks

end Operation

namespace Transfer

/-- An exchange keeps stores well-formed if what it does with its argument does. -/
theorem exchange_keeps (h : σ.IsWellFormed) (argument : Literal) {f : Value → Store → Outcome α}
    {reply : α → Action Reply}
    (hf : ∀ {τ : Store} v, τ.IsWellFormed → (f v τ).store.IsWellFormed)
    (hreply : ∀ a, (reply a).IsCalm) : (exchange names argument f reply σ).store.IsWellFormed := by
  have hτ := h.calm (Literal.isCalm_eval names argument σ)
  rw [exchange]
  split
  · next hresult =>
    rwa [hresult] at hτ
  · next v τ hresult =>
    rw [hresult] at hτ
    have hρ := hf v hτ
    dsimp only
    split
    · exact hρ
    · next a _ => exact hρ.calm (hreply a _)

/-- A transfer keeps stores well-formed, whichever it is. -/
theorem run_keeps (h : σ.IsWellFormed) (t : Transfer) :
    (t.run names σ).store.IsWellFormed := by
  have text : ∀ s, (replyText s).IsCalm := fun s => Reply.isCalm_ofValue (.text s)
  cases t with
  | ofPlain data =>
    exact exchange_keeps h data (fun v hτ => Exchange.ofPlain_keeps hτ v) Reply.isCalm_ofValue
  | dump config v => exact exchange_keeps h v (fun v hτ => Exchange.dump_keeps hτ config v) text
  | load s => exact exchange_keeps h s (fun v hτ => Exchange.load_keeps hτ v) Reply.isCalm_ofValue
  | dumpAll config v =>
    exact exchange_keeps h v (fun v hτ => Exchange.dumpAll_keeps hτ config v) text
  | loadAll s =>
    exact exchange_keeps h s (fun v hτ => Exchange.loadAll_keeps hτ v) Reply.isCalm_ofValue

end Transfer

/-- **One request.** -/
theorem Request.run_keeps (h : σ.IsWellFormed) {request : Request}
    (hrequest : request.IsAdmissible names σ) :
    (request.run names σ).store.IsWellFormed := by
  cases request with
  | operation o => exact Operation.keeps_act names o h hrequest
  | transfer t => exact Transfer.run_keeps h t

end Requests

namespace Session

/-- **Many requests.** -/
theorem run_isWellFormed {s : Session} (h : s.store.IsWellFormed)
    {requests : List (Request × Option String)} (hrequests : s.Admits requests) :
    (s.run requests).2.store.IsWellFormed := by
  induction requests generalizing s with
  | nil => exact h
  | cons request rest ih =>
    obtain ⟨request, name?⟩ := request
    obtain ⟨hrequest, hrest⟩ := hrequests
    exact ih (Request.run_keeps h hrequest) hrest

end Session

/-! ## What diagnostics then compute -/

namespace Store.IsWellFormed

variable {σ : Store} {l : Loc} {d : DiagnosticFields}

/-- The position and the labels of either style are there. -/
theorem read_returns (h : σ.IsWellFormed) (hl : σ.get? l = some (.diagnostic d)) {name : String}
    (hname : name ∈ ["position", "primary_labels", "secondary_labels"]) :
    (Attribute.read (.object l) name).Returns σ fun _ τ => τ.IsWellFormed := by
  obtain ⟨items, hitems, hlabels⟩ := (h.records l _ hl).labels
  obtain ⟨ms, rfl, hms⟩ := h.exists_marks hlabels
  obtain ⟨k, hd, hk⟩ := exists_of_cell? hitems
  simp only [List.mem_cons, List.not_mem_nil, or_false] at hname
  rcases hname with rfl | rfl | rfl
  · exact ⟨_, _, Attribute.read_position hl hd hk hms, h⟩
  · exact ⟨_, _, Attribute.read_primaryLabels hl hd hk hms, h.calm (.alloc σ rfl)⟩
  · exact ⟨_, _, Attribute.read_secondaryLabels hl hd hk hms, h.calm (.alloc σ rfl)⟩

/-- A diagnostic can be given a file that is made for it. -/
theorem withFile_make_returns (h : σ.IsWellFormed) (hl : σ.get? l = some (.diagnostic d))
    (j : Json) :
    (Exchange.make j >>= Builder.withFile (.object l)).Returns σ fun _ τ => τ.IsWellFormed := by
  have hcalm := Exchange.calm_ofJson σ j
  refine returns_bind_of_ok (x := (Exchange.ofJson σ j).1) (τ := (Exchange.ofJson σ j).2) rfl ?_
  exact (Builder.withFile_returns (h.calm hcalm) (hcalm.get?_eq hl (by simp)) _).imp
    fun _ _ hmade => hmade.wellFormed

end Store.IsWellFormed

namespace Session

/-- **Well-formedness.** Whatever admissible requests have led to, every record holds what it was
declared for, and every diagnostic has a position and labels of either style, and can be given
another file: a value that is there already, or one that is made for it. -/
theorem isWellFormed_of_admits {requests : List (Request × Option String)}
    (h : Session.empty.Admits requests) :
    let σ := (Session.empty.run requests).2.store
    σ.IsWellFormed ∧ ∀ l d, σ.get? l = some (.diagnostic d) →
      (∀ name ∈ ["position", "primary_labels", "secondary_labels"],
        (Attribute.read (.object l) name).Returns σ fun _ τ => τ.IsWellFormed) ∧
      (∀ fileId, (Builder.withFile (.object l) fileId).Returns σ fun _ τ => τ.IsWellFormed) ∧
      ∀ j, (Exchange.make j >>= Builder.withFile (.object l)).Returns σ
        fun _ τ => τ.IsWellFormed := by
  intro σ
  have hσ : σ.IsWellFormed := run_isWellFormed Store.isWellFormed_empty h
  refine ⟨hσ, fun l d hl => ⟨fun name hname => hσ.read_returns hl hname, fun fileId => ?_, fun j => ?_⟩⟩
  · exact (Builder.withFile_returns hσ hl fileId).imp fun _ _ hmade => hmade.wellFormed
  · exact hσ.withFile_make_returns hl j

/-- Requests that make a diagnostic with a note and a label, one of which fails. -/
def sample : List (Request × Option String) :=
  [(.operation (.ofLevel .error), some "diagnostic"),
    (.operation (.append (.reference "diagnostic" [.attribute "notes"]) (.text "see here")), none),
    (.operation (.withNotes (.reference "diagnostic" []) (.int 3)), none),
    (.operation (.primary (.int 0) (.tuple [.int 4, .int 9])), some "label"),
    (.operation (.withLabels (.reference "diagnostic" []) (.list [.reference "label" []])), none)]

/-- The requests of the example are admitted one after the other. -/
theorem admits_sample : Session.empty.Admits sample := by
  refine ⟨trivial, Literal.both_of_perform (v := .object 1) rfl rfl ⟨?_, fun _ => rfl⟩, trivial,
    trivial, Literal.both_of_perform rfl rfl ?_, trivial⟩
  · rintro ⟨k, d, hk, hd⟩
    -- the only diagnostic that there is comes after its lists
    rcases k with _ | _ | _ | k
    · cases hk
    · cases hk
    · cases hk
      cases hd
    · cases hk
  · rintro vs τ ⟨⟩
    exact List.forall_mem_singleton.2 ⟨_, rfl⟩

/-- The requests are admissible, and the diagnostic that they make has a position. -/
theorem isWellFormed_sample : Session.empty.Admits sample ∧
    let σ := (Session.empty.run sample).2.store
    σ.IsWellFormed ∧
      (Attribute.read (.object 2) "position").Returns σ fun _ τ => τ.IsWellFormed := by
  obtain ⟨hσ, hdiagnostics⟩ := isWellFormed_of_admits admits_sample
  exact ⟨admits_sample, hσ, (hdiagnostics 2 _ rfl).1 "position" (by simp)⟩

end Session

end Diagnostics
