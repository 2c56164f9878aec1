import Diagnostics.Proofs.Builder.Copied
import Diagnostics.Proofs.Builder.Runs

/-!
# Diagnostics that are built from a plan

A plan says what a diagnostic is to hold: its labels each have a style, what describes a range, and
perhaps a message. All of them are made in one file (`DiagnosticPlan.make`). Whatever the file, the
diagnostic comes about, and it holds what the plan says (`DiagnosticPlan.make_anatomy`). What is there
already stays as it is, also where ranges of the plan are shared.
-/

namespace Diagnostics

variable {σ τ ρ : Store} {T : Loc → Prop} {v w fileId : Value} {k l : Loc}

open Diagnostics.Action Store

/-! ## Ranges -/

/-- Whether a value describes a range of offsets: it is one, or it is accepted as one. -/
def Store.Describes (σ : Store) (v : Value) (r : ByteRange) : Prop :=
  ∃ d, Validation.asByteRange σ v = .valid d ∧
    (d = .fresh r ∨ ∃ l, d = .existing l ∧ σ.get? l = some (.byteRange ⟨.int r.start, .int r.stop⟩))

/-- What describes a range is an object, and the rest of the store does not matter. -/
theorem Validation.asByteRange_valid {d : Draft ByteRange} (h : asByteRange σ v = .valid d) :
    ∃ l c, v = .object l ∧ σ.get? l = some c ∧
      ∀ τ : Store, τ.get? l = some c → asByteRange τ v = .valid d := by
  rcases hcell : σ.cell? v with _ | c
  · rw [asByteRange.eq_def, hcell] at h
    cases v <;> cases h
  obtain ⟨l, rfl, hl⟩ := exists_of_cell? hcell
  refine ⟨l, c, rfl, hl, fun τ hτ => ?_⟩
  rw [asByteRange.eq_def, show τ.cell? (.object l) = some c from hτ]
  rw [asByteRange.eq_def, hcell] at h
  cases c with
  | byteRange | list | tuple | buffer => exact h
  | range start stop step =>
    dsimp only at h ⊢
    split at h
    · next hstep => rwa [if_pos hstep]
    · cases h
  | slice start stop step =>
    dsimp only at h ⊢
    split at h
    · cases h
    · next hstep =>
      split at h
      · cases h
      · next hstop => rwa [if_neg hstep, if_neg hstop]
  | _ => cases h

namespace Store

variable {r : ByteRange}

theorem Describes.grows (h : σ.Describes v r) (hστ : σ.Grows τ) : τ.Describes v r := by
  obtain ⟨d, hd, hr⟩ := h
  obtain ⟨l, c, rfl, hl, hvalid⟩ := Validation.asByteRange_valid hd
  refine ⟨d, hvalid τ (hστ.get? hl), hr.imp_right ?_⟩
  rintro ⟨k, rfl, hk⟩
  exact ⟨k, rfl, hστ.get? hk⟩

/-- What is accepted as a byte range that holds offsets describes them. -/
theorem exists_describes (h : (Record.toByteRange v).Returns σ fun w τ =>
    ∃ r : ByteRange, τ.cell? w = some (.byteRange ⟨.int r.start, .int r.stop⟩)) :
    ∃ r, σ.Describes v r := by
  obtain ⟨w, τ, hperform, r, hw⟩ := h
  simp only [perform, Record.toByteRange, Record.build, ExceptT.run, StateT.run] at hperform
  rcases hcheck : Validation.asByteRange σ v with d | is | e
  · rw [hcheck] at hperform
    refine ⟨r, d, hcheck, ?_⟩
    cases d with
    | existing l =>
      cases hperform
      exact .inr ⟨l, rfl, hw⟩
    | fresh a =>
      cases hperform
      have hnew := get?_alloc_self σ (.byteRange ⟨.int a.start, .int a.stop⟩)
      have heq := Option.some.inj (hnew.symm.trans hw)
      simp only [Cell.byteRange.injEq, RangeFields.mk.injEq, Value.int.injEq, Int.ofNat_inj] at heq
      obtain ⟨start, stop⟩ := a
      obtain ⟨rfl, rfl⟩ := heq
      exact .inl rfl
  · rw [hcheck] at hperform
    cases hperform
  · rw [hcheck] at hperform
    cases hperform

/-- What describes a range is made one. -/
theorem Describes.toByteRange (h : σ.Describes v r) :
    (Record.toByteRange v).Returns σ fun w τ => ∃ k, w = .object k ∧
      τ.get? k = some (.byteRange ⟨.int r.start, .int r.stop⟩) ∧ σ.Grows τ := by
  obtain ⟨d, hd, hr⟩ := h
  refine ⟨_, _, Record.perform_build newByteRange "ByteRange" (Validation.asByteRange · v) hd, ?_⟩
  rcases hr with rfl | ⟨k, rfl, hk⟩
  · exact ⟨σ.size, rfl, get?_alloc_self σ _, .alloc σ _⟩
  · exact ⟨k, rfl, hk, .refl σ⟩

/-- A store has grown where all that was there still is. -/
theorem grows_of_get? (h : ∀ l c, σ.get? l = some c → τ.get? l = some c) : σ.Grows τ := by
  refine List.prefix_iff_getElem?.2 fun i hi => ?_
  exact h i _ (List.getElem?_eq_getElem hi)

/-- Changes beyond all that was there are growth. -/
theorem Grows.trans_calmBut (h : σ.Grows τ) (h' : τ.CalmBut T v ρ) (hT : ∀ k, T k → σ.size ≤ k)
    (hv : ∀ l, v = .object l → σ.size ≤ l) : σ.Grows ρ := by
  refine grows_of_get? fun l c hl => h'.kept l c ?_ ?_ (h.get? hl)
  · exact fun hTl => Nat.not_lt.2 (hT l hTl) (lt_size_of_get? hl)
  · exact fun heq => Nat.not_lt.2 (hv l heq) (lt_size_of_get? hl)

theorem Grows.trans_update (h : σ.Grows τ) (hl : σ.size ≤ l) (c : Cell) : σ.Grows (τ.update l c) :=
  h.trans_calmBut (T := fun k => k = l) (calmBut_update (T := fun k => k = l) rfl .none c)
    (fun _ hk => hk ▸ hl) nofun

end Store

/-! ## Labels -/

namespace Builder

/-- What a label is to hold, apart from its file. -/
structure LabelPlan where
  style : LabelStyle
  range : Value
  message : Option String

/-- What a diagnostic is to hold. -/
structure DiagnosticPlan where
  severity : Severity
  code : Option String
  message : String
  labels : List LabelPlan
  notes : List String

/-- Sets a text, if there is one. -/
def setAny (set : (receiver text : Value) → Action Unit) (receiver : Value) :
    Option String → Action Unit
  | some s => set receiver (.text s)
  | none => return ()

namespace LabelPlan

/-- Makes a label in a file. -/
def make (fileId : Value) (p : LabelPlan) : Action Value := do
  let label ← Record.label (.style p.style) fileId p.range
  setAny Builder.withMessage label p.message
  return label

/-- Makes labels in a file. -/
def makeAll (fileId : Value) : List LabelPlan → Action (List Value)
  | [] => return []
  | p :: ps => do return (← p.make fileId) :: (← makeAll fileId ps)

/-- What a label holds where its file shows some data. -/
def content (file : Data) (p : LabelPlan) (r : ByteRange) : LabelContent :=
  ⟨p.style, file, r, p.message.getD ""⟩

/-- Whether a label in some file is what is planned, with some range. -/
structure MadeAs (fileId : Value) (p : LabelPlan) (r : ByteRange) (q : Part) : Prop where
  style : q.style = p.style
  fileId : q.fileId = fileId
  bounds : q.bounds = r
  message : q.message = p.message.getD ""

theorem MadeAs.content_eq {p : LabelPlan} {r : ByteRange} {q : Part} (h : p.MadeAs fileId r q)
    (file : Data) : q.content file = p.content file r := by
  rw [Part.content, content, h.style, h.bounds, h.message]

theorem label_part {r : ByteRange} (h : σ.Describes v r) (s : LabelStyle) (fileId : Value) :
    (Record.label (.style s) fileId v).Returns σ fun w τ => ∃ q : Part, w = .object q.label ∧
      (q.style = s ∧ q.fileId = fileId ∧ q.bounds = r ∧ q.message = "") ∧ q.IsIn τ ∧
      σ.Grows τ ∧ σ.size ≤ q.label := by
  refine h.toByteRange.bind ?_
  rintro _ τ ⟨k, rfl, hk, hτ⟩
  refine ⟨_, _, Record.perform_labelOfFields hk rfl rfl rfl (Validation.optional_default rfl),
    ⟨τ.size, k, s, fileId, r, ""⟩, rfl, ⟨rfl, rfl, rfl, rfl⟩,
    ⟨get?_alloc_self τ _, get?_alloc_of_get? _ hk⟩, hτ.trans (.alloc τ _), hτ.size_le⟩

/-- A label gets another message. -/
theorem withMessage_part {q : Part} (hq : q.IsIn σ) (m : String) :
    (Builder.withMessage (.object q.label) (.text m)).perform σ = (.ok (), σ.update q.label
      (.label ⟨.style q.style, q.fileId, .object q.range, .text m⟩)) ∧
    { q with message := m }.IsIn (σ.update q.label
      (.label ⟨.style q.style, q.fileId, .object q.range, .text m⟩)) := by
  have htext : (plainText (.text m)).perform σ = (.ok m, σ) := by
    rw [perform_plainText, textOf_text]
  have hne : q.label ≠ q.range := fun heq => nomatch (heq ▸ hq.label).symm.trans hq.range
  refine ⟨?_, get?_update_self σ _ (lt_size_of_get? hq.label), ?_⟩
  · rw [Builder.withMessage, perform_bind_of_ok _ (perform_cell? _ _),
      show σ.cell? (.object q.label) = _ from hq.label]
    exact perform_bind_of_ok _ htext
  · exact (get?_update_ne σ _ hne).trans hq.range

theorem make_part {p : LabelPlan} {r : ByteRange} (h : σ.Describes p.range r) (fileId : Value) :
    (p.make fileId).Returns σ fun v τ => ∃ q : Part, v = .object q.label ∧
      p.MadeAs fileId r q ∧ q.IsIn τ ∧ σ.Grows τ := by
  refine (label_part h p.style fileId).bind ?_
  rintro _ τ ⟨q, rfl, ⟨hstyle, hfile, hbounds, hmessage⟩, hq, hτ, hle⟩
  rcases hplan : p.message with _ | m
  · refine ⟨_, τ, rfl, q, rfl, ⟨hstyle, hfile, hbounds, ?_⟩, hq, hτ⟩
    rw [hmessage, hplan, Option.getD_none]
  · obtain ⟨hperform, hq'⟩ := withMessage_part hq m
    refine ⟨_, _, perform_bind_of_ok _ hperform, { q with message := m }, rfl,
      ⟨hstyle, hfile, hbounds, ?_⟩, hq', hτ.trans_update hle _⟩
    rw [hplan, Option.getD_some]

theorem makeAll_parts {ps : List LabelPlan} {rs : List ByteRange}
    (h : List.Forall₂ (fun p r => σ.Describes p.range r) ps rs) (fileId : Value) :
    (makeAll fileId ps).Returns σ fun vs τ => ∃ qs : List Part,
      vs = qs.map (fun q => .object q.label) ∧ (∀ q ∈ qs, q.IsIn τ ∧ q.fileId = fileId) ∧
      (∀ file, qs.map (Part.content file) = List.zipWith (content file) ps rs) ∧ σ.Grows τ := by
  induction ps generalizing σ rs with
  | nil => exact ⟨[], σ, rfl, [], rfl, List.forall_mem_nil _, fun _ => rfl, .refl σ⟩
  | cons p ps ih =>
    obtain ⟨r, rs, hp, hps, rfl⟩ := List.forall₂_cons_left_iff.1 h
    refine (make_part hp fileId).bind ?_
    rintro _ τ ⟨q, rfl, hmade, hq, hτ⟩
    refine (ih (hps.imp fun _ _ hr => hr.grows hτ)).bind ?_
    rintro _ ρ ⟨qs, rfl, hqs, hcontents, hρ⟩
    refine ⟨_, ρ, rfl, q :: qs, rfl, ?_, fun file => ?_, hτ.trans hρ⟩
    · exact List.forall_mem_cons.2 ⟨⟨hq.grows hρ, hmade.fileId⟩, hqs⟩
    · rw [List.map_cons, List.zipWith_cons_cons, hcontents, hmade.content_eq]

end LabelPlan

/-! ## Diagnostics -/

theorem Sketch.IsAt.grows {s : Sketch} {p : Places} (h : s.IsAt σ p) (hστ : σ.Grows τ) :
    s.IsAt τ p :=
  ⟨hστ.get? h.diagnostic, hστ.get? h.labelList, hστ.get? h.noteList, h.apart⟩

/-- A call that succeeds on a diagnostic that is newer than a store leaves that store as it is. -/
theorem Sketch.IsAt.advance {s s' : Sketch} {p : Places} (h : s.IsAt ρ p) (hσ : σ.Grows ρ)
    (hp : ∀ k, p.Has k → σ.size ≤ k) (c : Call)
    (hargument : ∀ l, c.argument = .object l → σ.size ≤ l)
    (hs' : s'.IsAt ((c.act (.object p.diagnostic)).perform ρ).2 p)
    (hok : ((c.act (.object p.diagnostic)).perform ρ).1 = .ok ()) :
    (c.act (.object p.diagnostic)).Returns ρ fun _ τ => s'.IsAt τ p ∧ σ.Grows τ :=
  ⟨(), _, Prod.ext hok rfl, hs', hσ.trans_calmBut (h.calmBut c) hp hargument⟩

/-- Adds labels to a diagnostic. -/
def addLabels (diagnostic : Value) (labels : List Value) : Action Unit := do
  withLabels diagnostic (← Action.new (.list labels))

/-- Adds notes to a diagnostic. -/
def addNotes (diagnostic : Value) (notes : List String) : Action Unit := do
  withNotes diagnostic (← Action.new (.list (notes.map .text)))

theorem given_list {vs : List Value} (hl : σ.get? l = some (.list vs)) :
    given σ (.object l) = (vs, σ) := by
  rw [given, elements?_of_object hl]
  rfl

theorem textsOf_list {ts : List String} (hl : σ.get? l = some (.list (ts.map .text))) :
    textsOf σ (.object l) = ts := by
  rw [textsOf, given_list hl, List.map_map]
  have htexts : (textOf σ ∘ Value.text) = (Except.ok : String → Except Failure String) :=
    funext (textOf_text σ)
  rw [htexts, okPrefix_map_ok]

/-- A list of texts shows nothing but itself. -/
theorem offersClear_texts {ts : List String} (hl : σ.get? l = some (.list (ts.map .text)))
    (hT : ¬ T l) : σ.OffersClear T (.object l) := by
  refine ⟨?_, fun rest hrest => ?_⟩
  · rintro k (_ | ⟨cell, mem, rest⟩)
    · exact ⟨lt_size_of_get? hl, hT⟩
    · obtain rfl := Option.some.inj (hl.symm.trans cell)
      obtain ⟨t, -, rfl⟩ := List.mem_map.1 mem
      cases rest
  · exact nomatch hl.symm.trans hrest

section Stages

variable {s : Sketch} {p : Places}

theorem Sketch.IsAt.setCode (h : s.IsAt ρ p) (hσ : σ.Grows ρ) (hp : ∀ k, p.Has k → σ.size ≤ k)
    (code : Option String) :
    (setAny Builder.withCode (.object p.diagnostic) code).Returns ρ fun _ τ =>
      { s with code := code.or s.code }.IsAt τ p ∧ σ.Grows τ := by
  rcases code with _ | t
  · exact ⟨(), ρ, rfl, h, hσ⟩
  · obtain ⟨hs', hok⟩ := h.withCode (.text t)
    rw [textOf_text] at hs'
    exact h.advance hσ hp ⟨.code, .text t⟩ nofun hs' (hok.2 ⟨t, textOf_text ρ t⟩)

theorem Sketch.IsAt.setMessage (h : s.IsAt ρ p) (hσ : σ.Grows ρ)
    (hp : ∀ k, p.Has k → σ.size ≤ k) (t : String) :
    (Builder.withMessage (.object p.diagnostic) (.text t)).Returns ρ fun _ τ =>
      { s with message := t }.IsAt τ p ∧ σ.Grows τ := by
  obtain ⟨hs', hok⟩ := h.withMessage (.text t)
  rw [textOf_text] at hs'
  exact h.advance hσ hp ⟨.message, .text t⟩ nofun hs' (hok.2 ⟨t, textOf_text ρ t⟩)

theorem Sketch.IsAt.addLabels (h : s.IsAt ρ p) (hσ : σ.Grows ρ)
    (hp : ∀ k, p.Has k → σ.size ≤ k) (vs : List Value) :
    (Builder.addLabels (.object p.diagnostic) vs).Returns ρ fun _ τ =>
      { s with labels := s.labels ++ vs }.IsAt τ p ∧ σ.Grows τ := by
  have hgrown := Grows.alloc ρ (.list vs)
  have hlist := get?_alloc_self ρ (.list vs)
  have h' := h.grows hgrown
  obtain ⟨hs', hok, -⟩ := h'.withLabels (.object ρ.size)
  rw [given_list hlist] at hs'
  refine returns_bind_of_ok (perform_new ρ _) ?_
  refine h'.advance (hσ.trans hgrown) hp ⟨.labels, .object ρ.size⟩ ?_ hs' (hok.2 ?_)
  · rintro l ⟨⟩
    exact hσ.size_le
  · rw [elements?_of_object hlist]
    rfl

theorem Sketch.IsAt.addNotes (h : s.IsAt ρ p) (hσ : σ.Grows ρ)
    (hp : ∀ k, p.Has k → σ.size ≤ k) (ts : List String) :
    (Builder.addNotes (.object p.diagnostic) ts).Returns ρ fun _ τ =>
      { s with notes := s.notes ++ ts }.IsAt τ p ∧ σ.Grows τ := by
  have hgrown := Grows.alloc ρ (.list (ts.map .text))
  have hlist := get?_alloc_self ρ (.list (ts.map .text))
  have h' := h.grows hgrown
  have hclear := offersClear_texts hlist fun hk => Nat.lt_irrefl _ (h.lt_size _ hk)
  obtain ⟨hs', hok⟩ := h'.withNotes hclear
  rw [textsOf_list hlist] at hs'
  refine returns_bind_of_ok (perform_new ρ _) ?_
  refine h'.advance (hσ.trans hgrown) hp ⟨.notes, .object ρ.size⟩ ?_ hs' (hok.2 ?_)
  · rintro l ⟨⟩
    exact hσ.size_le
  · refine ⟨ts.map .text, _, elements?_of_object hlist, ?_⟩
    exact List.forall_mem_map.2 fun t _ => ⟨t, textOf_text _ t⟩

end Stages

namespace DiagnosticPlan

/-- Makes a diagnostic with labels in a file. -/
def make (fileId : Value) (plan : DiagnosticPlan) : Action Value := do
  let labels ← LabelPlan.makeAll fileId plan.labels
  let diagnostic ← Record.diagnostic (.severity plan.severity)
  setAny withCode diagnostic plan.code
  withMessage diagnostic (.text plan.message)
  addLabels diagnostic labels
  addNotes diagnostic plan.notes
  return diagnostic

/-- What a diagnostic holds where its file shows some data. -/
def content (file : Data) (plan : DiagnosticPlan) (rs : List ByteRange) : DiagnosticContent :=
  ⟨plan.severity, plan.code, plan.message, List.zipWith (LabelPlan.content file) plan.labels rs,
    plan.notes⟩

/-- **Plans.** A diagnostic is made that holds what is planned. -/
theorem make_anatomy (plan : DiagnosticPlan) {rs : List ByteRange}
    (hranges : List.Forall₂ (fun p r => σ.Describes p.range r) plan.labels rs) (fileId : Value) :
    (plan.make fileId).Returns σ fun v τ => ∃ a : Anatomy, v = .object a.diagnostic ∧ a.IsIn τ ∧
      (∀ q ∈ a.parts, q.fileId = fileId) ∧ (∀ v ∈ a.notes, v.IsText) ∧
      (∀ file, a.content file = plan.content file rs) ∧ σ.Grows τ := by
  refine (LabelPlan.makeAll_parts hranges fileId).bind ?_
  rintro _ σ₁ ⟨qs, rfl, hqs, hcontents, hσ₁⟩
  obtain ⟨p, τ, hperform, hextends, hp, hs⟩ := perform_diagnostic plan.severity σ₁
  refine returns_bind_of_ok hperform ?_
  refine (hs.setCode hextends.grows hp plan.code).bind ?_
  rintro ⟨⟩ ρ₁ ⟨hs₁, hρ₁⟩
  refine (hs₁.setMessage hρ₁ hp plan.message).bind ?_
  rintro ⟨⟩ ρ₂ ⟨hs₂, hρ₂⟩
  refine (hs₂.addLabels hρ₂ hp _).bind ?_
  rintro ⟨⟩ ρ₃ ⟨hs₃, hρ₃⟩
  refine (hs₃.addNotes hρ₃ hp plan.notes).bind ?_
  rintro ⟨⟩ ρ ⟨⟨hdiagnostic, hlabels, hnotes, -⟩, hρ⟩
  rw [Option.or_none] at hdiagnostic
  refine ⟨_, ρ, rfl, ⟨p.diagnostic, p.labels, p.notes, plan.severity, plan.code, plan.message, qs,
    plan.notes.map .text⟩, rfl, ⟨hdiagnostic, hlabels, hnotes, ?_, ?_⟩, fun q hq => (hqs q hq).2,
    ?_, fun file => ?_, hσ₁.trans hρ⟩
  · exact fun q hq => (hqs q hq).1.grows hρ
  · exact List.forall_mem_map.2 fun _ _ => rfl
  · exact List.forall_mem_map.2 fun t _ => ⟨t, rfl⟩
  · simp [Anatomy.content, content, hcontents, Anatomy.lines, Function.comp_def, Value.asText?]

end DiagnosticPlan

end Builder

end Diagnostics
