import Diagnostics.Proofs.Builder.Copied
import Diagnostics.Proofs.Builder.Steps

/-!
# Calls on a diagnostic

A `Sketch` is what a diagnostic holds that nobody else writes to. A call of one of its steps changes
the sketch by what the call contributes and by nothing else (`Sketch.IsAt.call`), whether it succeeds or
not: a code or a message takes the place of the one before, labels and notes are appended. What a call
contributes can be told from its argument before the call, provided that this has nothing to do with
the diagnostic.
-/

namespace Diagnostics

variable {σ τ ρ : Store} {T : Loc → Prop} {v w source : Value} {vs : List Value}

open Store Diagnostics.Action

/-- Where all succeed, there is no first failure. -/
theorem okPrefix_map_ok {ε α : Type} (as : List α) :
    okPrefix (as.map (Except.ok : α → Except ε α)) = as := by
  induction as with
  | nil => rfl
  | cons a as ih => rw [List.map_cons, okPrefix, ih]

/-- A function on what succeeds may as well be applied to the values before the first failure. -/
theorem okPrefix_map {ε α β γ : Type} (f : β → γ) (g : α → Except ε β) (as : List α) :
    okPrefix (as.map fun a => (g a).map f) = (okPrefix (as.map g)).map f := by
  induction as with
  | nil => rfl
  | cons a as ih =>
    rw [List.map_cons, List.map_cons]
    rcases g a with e | b
    · rfl
    · exact congrArg (f b :: ·) ih

/-- What a function makes of a result is a success only if the result is. -/
theorem exists_of_map_eq_ok {ε α β : Type} {f : α → β} {x : Except ε α} {b : β}
    (h : x.map f = .ok b) : ∃ a, x = .ok a := by
  rcases x with e | a
  · cases h
  · exact ⟨a, rfl⟩

namespace Builder

/-- The fields of a diagnostic that steps change. -/
inductive Field where
  | code
  | message
  | labels
  | notes
  deriving DecidableEq, Repr

/-- The field that a step changes. -/
def Method.field : Method → Field
  | .code => .code
  | .message => .message
  | .labels => .labels
  | .labelsEach => .labels
  | .notes => .notes
  | .notesEach => .notes

/-- The plain form of a value. -/
def textOf (σ : Store) (v : Value) : Except Failure String := ((Action.plainText v).perform σ).1

/-- Writing a value out leaves the store as it is. -/
theorem perform_plainText (σ : Store) (v : Value) :
    (Action.plainText v).perform σ = (textOf σ v, σ) :=
  (isReading_plainText v).perform_eq σ

/-- The plain form as a text is made of its characters. -/
theorem textOf_eq (σ : Store) (v : Value) : textOf σ v = (σ.plain v).map String.ofList := rfl

/-- The plain form of a value depends on what shows with it. -/
theorem sees_textOf : Sees textOf where
  same h := by rw [textOf_eq, textOf_eq, h.plain_eq]
  pair name h := by rw [textOf_eq, textOf_eq, sees_plain.pair name h]

/-- A text is its own plain form. -/
theorem textOf_text (σ : Store) (t : String) : textOf σ (.text t) = .ok t := by
  rw [textOf_eq, plain, Except.map, String.ofList_toList]

/-- What a value gives one by one, and the store in which it is given. -/
def given (σ : Store) (v : Value) : List Value × Store := (σ.elements? v).getD ([], σ)

/-- The texts of what a value gives, up to the first that has none. -/
def textsOf (σ : Store) (v : Value) : List String :=
  okPrefix ((given σ v).1.map (textOf (given σ v).2))

/-- A step with what it is given. -/
structure Call where
  method : Method
  argument : Value
  deriving DecidableEq, Repr

namespace Call

/-- What a call does. -/
def act (c : Call) (receiver : Value) : Action Unit := c.method.act receiver c.argument

/-- The text that a call sets a field to. -/
def text? (field : Field) (σ : Store) (c : Call) : Option String :=
  if c.method.field = field then (textOf σ c.argument).toOption else none

/-- The labels that a call adds. -/
def labels (σ : Store) (c : Call) : List Value :=
  if c.method.field = .labels then (given σ c.argument).1 else []

/-- The notes that a call adds. -/
def notes (σ : Store) (c : Call) : List String :=
  if c.method.field = .notes then textsOf σ c.argument else []

/-- Whether a call can do all that it is to do. -/
def Succeeds (σ : Store) (c : Call) : Prop :=
  match c.method.field with
  | .code => ∃ s, textOf σ c.argument = .ok s
  | .message => ∃ s, textOf σ c.argument = .ok s
  | .labels => (σ.elements? c.argument).isSome
  | .notes => ∃ vs τ, σ.elements? c.argument = some (vs, τ) ∧ ∀ w ∈ vs, ∃ s, textOf τ w = .ok s

end Call

/-- The places of a diagnostic and of its lists. -/
structure Places where
  diagnostic : Loc
  labels : Loc
  notes : Loc

/-- Whether something is one of the places. -/
def Places.Has (p : Places) (k : Loc) : Prop := k = p.diagnostic ∨ k = p.labels ∨ k = p.notes

/-- What a diagnostic holds. -/
structure Sketch where
  severity : Severity
  code : Option String
  message : String
  labels : List Value
  notes : List String

namespace Sketch

/-- The fields of a diagnostic that is sketched. -/
def fields (s : Sketch) (p : Places) : DiagnosticFields where
  severity := .severity s.severity
  code := (s.code.map Value.text).getD .none
  message := .text s.message
  labels := .object p.labels
  notes := .object p.notes

/-- Whether a diagnostic is what is sketched, with lists of its own. -/
structure IsAt (s : Sketch) (σ : Store) (p : Places) : Prop where
  diagnostic : σ.get? p.diagnostic = some (.diagnostic (s.fields p))
  labelList : σ.get? p.labels = some (.list s.labels)
  noteList : σ.get? p.notes = some (.list (s.notes.map .text))
  apart : p.labels ≠ p.notes

/-- The sketch after a call that was made in a store. -/
def after (s : Sketch) (σ : Store) (c : Call) : Sketch where
  severity := s.severity
  code := (c.text? .code σ).or s.code
  message := (c.text? .message σ).getD s.message
  labels := s.labels ++ c.labels σ
  notes := s.notes ++ c.notes σ

variable {s : Sketch} {p : Places}

@[simp] theorem fields_labels (s : Sketch) (p : Places) : (s.fields p).labels = .object p.labels := rfl

@[simp] theorem fields_notes (s : Sketch) (p : Places) : (s.fields p).notes = .object p.notes := rfl

/-- The places of a diagnostic are there. -/
theorem IsAt.lt_size (h : s.IsAt σ p) : ∀ k, p.Has k → k < σ.size := by
  rintro k (rfl | rfl | rfl)
  · exact lt_size_of_get? h.diagnostic
  · exact lt_size_of_get? h.labelList
  · exact lt_size_of_get? h.noteList

/-- A diagnostic whose places are left alone stays what it is. -/
theorem IsAt.of_get?_eq (h : s.IsAt σ p) (hτ : ∀ k, p.Has k → τ.get? k = σ.get? k) : s.IsAt τ p where
  diagnostic := (hτ _ (.inl rfl)).trans h.diagnostic
  labelList := (hτ _ (.inr (.inl rfl))).trans h.labelList
  noteList := (hτ _ (.inr (.inr rfl))).trans h.noteList
  apart := h.apart

/-- Where the fields of the diagnostic become those of another sketch and the lists stay, that is
the sketch. -/
theorem IsAt.update (h : s.IsAt σ p) {d : DiagnosticFields} {s' : Sketch} (hd : d = s'.fields p)
    (hlabels : s'.labels = s.labels) (hnotes : s'.notes = s.notes) :
    s'.IsAt (σ.update p.diagnostic (.diagnostic d)) p := by
  have hcell := get?_update h.diagnostic (.diagnostic d)
  have hlist : p.labels ≠ p.diagnostic := by
    intro heq
    exact nomatch (heq ▸ h.labelList).symm.trans h.diagnostic
  have hlist' : p.notes ≠ p.diagnostic := by
    intro heq
    exact nomatch (heq ▸ h.noteList).symm.trans h.diagnostic
  refine ⟨?_, ?_, ?_, h.apart⟩
  · rw [hcell, if_pos rfl, hd]
  · rw [hcell, if_neg hlist, hlabels, h.labelList]
  · rw [hcell, if_neg hlist', hnotes, h.noteList]

/-- Where only the list of labels changes, the sketch has other labels. -/
theorem IsAt.labels (h : s.IsAt σ p) (hτ : σ.CalmBut (· = p.labels) source τ)
    (hlist : τ.get? p.labels = some (.list vs)) : { s with labels := vs }.IsAt τ p where
  diagnostic := hτ.get?_eq (fun heq => nomatch (heq ▸ h.labelList).symm.trans h.diagnostic)
    h.diagnostic nofun
  labelList := hlist
  noteList := hτ.get?_eq h.apart.symm h.noteList nofun
  apart := h.apart

/-- Where only the list of notes changes, the sketch has other notes. -/
theorem IsAt.notes (h : s.IsAt σ p) (hτ : σ.CalmBut (· = p.notes) source τ) {lines : List String}
    (hlist : τ.get? p.notes = some (.list (lines.map .text))) :
    { s with notes := lines }.IsAt τ p where
  diagnostic := hτ.get?_eq (fun heq => nomatch (heq ▸ h.noteList).symm.trans h.diagnostic)
    h.diagnostic nofun
  labelList := hτ.get?_eq h.apart h.labelList nofun
  noteList := hlist
  apart := h.apart

/-! ## Calls -/

section Fields

variable {c : Call}

/-- A code takes the place of the one before, if it can be written out. -/
theorem after_code (hc : c.method.field = .code) :
    s.after σ c = { s with code := (textOf σ c.argument).toOption.or s.code } := by
  simp [after, Call.text?, Call.labels, Call.notes, hc]

/-- A message takes the place of the one before, if it can be written out. -/
theorem after_message (hc : c.method.field = .message) :
    s.after σ c = { s with message := (textOf σ c.argument).toOption.getD s.message } := by
  simp [after, Call.text?, Call.labels, Call.notes, hc]

/-- Labels are appended as they are given. -/
theorem after_labels (hc : c.method.field = .labels) :
    s.after σ c = { s with labels := s.labels ++ (given σ c.argument).1 } := by
  simp [after, Call.text?, Call.labels, Call.notes, hc]

/-- Notes are appended up to the first that cannot be written out. -/
theorem after_notes (hc : c.method.field = .notes) :
    s.after σ c = { s with notes := s.notes ++ textsOf σ c.argument } := by
  simp [after, Call.text?, Call.labels, Call.notes, hc]

end Fields

/-- The code is the plain form of what is given, if there is one, and else what it was. -/
theorem IsAt.withCode (h : s.IsAt σ p) (v : Value) :
    { s with code := (textOf σ v).toOption.or s.code }.IsAt
        ((Builder.withCode (.object p.diagnostic) v).perform σ).2 p ∧
      (((Builder.withCode (.object p.diagnostic) v).perform σ).1 = .ok () ↔
        ∃ t, textOf σ v = .ok t) := by
  rcases htext : textOf σ v with e | t
  · have htext' := (perform_plainText σ v).trans (congrArg (·, σ) htext)
    rw [perform_withCode_of_error h.diagnostic htext']
    exact ⟨h, nofun, nofun⟩
  · have htext' := (perform_plainText σ v).trans (congrArg (·, σ) htext)
    rw [perform_withCode h.diagnostic htext']
    exact ⟨h.update rfl rfl rfl, fun _ => ⟨t, rfl⟩, fun _ => rfl⟩

/-- The message is the plain form of what is given, if there is one, and else what it was. -/
theorem IsAt.withMessage (h : s.IsAt σ p) (v : Value) :
    { s with message := (textOf σ v).toOption.getD s.message }.IsAt
        ((Builder.withMessage (.object p.diagnostic) v).perform σ).2 p ∧
      (((Builder.withMessage (.object p.diagnostic) v).perform σ).1 = .ok () ↔
        ∃ t, textOf σ v = .ok t) := by
  rcases htext : textOf σ v with e | t
  · have htext' := (perform_plainText σ v).trans (congrArg (·, σ) htext)
    rw [perform_withMessage_of_error h.diagnostic htext']
    exact ⟨h, nofun, nofun⟩
  · have htext' := (perform_plainText σ v).trans (congrArg (·, σ) htext)
    rw [perform_withMessage h.diagnostic htext']
    exact ⟨h.update rfl rfl rfl, fun _ => ⟨t, rfl⟩, fun _ => rfl⟩

/-- Labels are appended all at once, which fails only where what is given has no elements. -/
theorem IsAt.withLabels (h : s.IsAt σ p) (v : Value) :
    { s with labels := s.labels ++ (given σ v).1 }.IsAt
        ((Builder.withLabels (.object p.diagnostic) v).perform σ).2 p ∧
      (((Builder.withLabels (.object p.diagnostic) v).perform σ).1 = .ok () ↔
        (σ.elements? v).isSome) ∧
      (given σ v).2.CalmBut (· = p.labels) v
        ((Builder.withLabels (.object p.diagnostic) v).perform σ).2 := by
  rw [Builder.withLabels, perform_bind_of_ok _ (perform_receiverFields h.diagnostic _), given,
    fields_labels]
  rcases helements : σ.elements? v with _ | ⟨vs, τ⟩
  · rw [perform_extend_of_none h.labelList helements, Option.getD_none, List.append_nil]
    exact ⟨h, ⟨nofun, nofun⟩, .refl _ v σ⟩
  · rw [perform_extend h.labelList helements, Option.getD_some]
    have hσ := calmBut_of_elements? (· = p.labels) helements v
    have hlist : (τ.leave v []).get? p.labels = some (.list s.labels) :=
      ((Calm.of_elements? helements).trans (Calm.leave τ v [])).get?_eq h.labelList nofun
    have hτ : τ.CalmBut (· = p.labels) v
        ((τ.leave v []).update p.labels (.list (s.labels ++ vs))) :=
      (calmBut_leave _ τ v []).trans (calmBut_update (T := (· = p.labels)) rfl v _)
    exact ⟨h.labels (hσ.trans hτ) (get?_update_self _ _ (lt_size_of_get? hlist)),
      ⟨fun _ => rfl, fun _ => rfl⟩, hτ⟩

/-- One by one labels are appended as they are. -/
theorem IsAt.withLabelsEach (h : s.IsAt σ p) (hv : v ≠ .object p.labels) :
    { s with labels := s.labels ++ (given σ v).1 }.IsAt
        ((Builder.withLabelsEach (.object p.diagnostic) v).perform σ).2 p ∧
      (((Builder.withLabelsEach (.object p.diagnostic) v).perform σ).1 = .ok () ↔
        (σ.elements? v).isSome) ∧
      (given σ v).2.CalmBut (· = p.labels) v
        ((Builder.withLabelsEach (.object p.diagnostic) v).perform σ).2 := by
  rw [Builder.withLabelsEach, perform_bind_of_ok _ (perform_receiverFields h.diagnostic _), given,
    fields_labels]
  rcases helements : σ.elements? v with _ | ⟨vs, τ⟩
  · rw [perform_appendFrom_of_none hv helements, Option.getD_none, List.append_nil]
    exact ⟨h, ⟨nofun, nofun⟩, .refl _ v σ⟩
  · have hmade : ∀ w ∈ vs, ∀ ρ, τ.CalmBut (· = p.labels) v ρ →
        (pure w : Action Value).perform ρ = (.ok w, ρ) := fun _ _ _ _ => rfl
    obtain ⟨result, ρ, hperform, hρ, hlist, hok⟩ :=
      perform_appendFrom h.labelList hv helements hmade
    rw [okPrefix_map_ok] at hlist
    rw [hperform, Option.getD_some]
    have hσ := calmBut_of_elements? (· = p.labels) helements v
    exact ⟨h.labels (hσ.trans hρ) hlist, ⟨fun _ => rfl, fun _ => hok.2 fun w _ => ⟨w, rfl⟩⟩, hρ⟩

/-- What is appended to the notes are the texts of what is given, up to the first element without
one. -/
theorem IsAt.appendNotes (h : s.IsAt σ p) (hv : σ.OffersClear p.Has v) :
    { s with notes := s.notes ++ textsOf σ v }.IsAt
        ((appendFrom (.object p.notes) v noteOf).perform σ).2 p ∧
      (((appendFrom (.object p.notes) v noteOf).perform σ).1 = .ok () ↔
        ∃ vs τ, σ.elements? v = some (vs, τ) ∧ ∀ w ∈ vs, ∃ t, textOf τ w = .ok t) := by
  have hne : v ≠ .object p.notes := by
    rintro rfl
    exact (hv.1 _ (.here _)).2 (.inr (.inr rfl))
  rw [textsOf, given]
  rcases helements : σ.elements? v with _ | ⟨vs, τ⟩
  · rw [perform_appendFrom_of_none hne helements, Option.getD_none, List.map_nil, okPrefix,
      List.append_nil]
    exact ⟨h, by simp⟩
  · have hmade : ∀ w ∈ vs, ∀ ρ, τ.CalmBut (· = p.notes) v ρ →
        (noteOf w).perform ρ = ((textOf τ w).map .text, ρ) := by
      intro w hw ρ hρ
      have hsame := (hv.elements? h.lt_size helements w hw).looksSame
        (hρ.mono fun k hk => .inr (.inr hk))
      rw [noteOf, perform_bind, perform_plainText, sees_textOf.same hsame]
      rcases textOf τ w <;> rfl
    obtain ⟨result, ρ, hperform, hρ, hlist, hok⟩ :=
      perform_appendFrom h.noteList hne helements hmade
    have hσ := calmBut_of_elements? (· = p.notes) helements v
    rw [hperform]
    refine ⟨h.notes (hσ.trans hρ) ?_, ?_⟩
    · rw [hlist, List.map_append, Option.getD_some, okPrefix_map]
    · constructor
      · intro hresult
        refine ⟨vs, τ, rfl, fun w hw => ?_⟩
        obtain ⟨u, hu⟩ := hok.1 hresult w hw
        exact exists_of_map_eq_ok hu
      · rintro ⟨vs', τ', heq, hall⟩
        obtain ⟨rfl, rfl⟩ := Prod.mk.inj (Option.some.inj heq)
        refine hok.2 fun w hw => ?_
        obtain ⟨t, ht⟩ := hall w hw
        exact ⟨.text t, by rw [ht, Except.map]⟩

/-- Notes are appended by extending the list, which fails at the first that has no text. -/
theorem IsAt.withNotes (h : s.IsAt σ p) (hv : σ.OffersClear p.Has v) :
    { s with notes := s.notes ++ textsOf σ v }.IsAt
        ((Builder.withNotes (.object p.diagnostic) v).perform σ).2 p ∧
      (((Builder.withNotes (.object p.diagnostic) v).perform σ).1 = .ok () ↔
        ∃ vs τ, σ.elements? v = some (vs, τ) ∧ ∀ w ∈ vs, ∃ t, textOf τ w = .ok t) := by
  have hlist : σ.cell? (.object p.notes) = some (.list (s.notes.map .text)) := h.noteList
  rw [Builder.withNotes, perform_bind_of_ok _ (perform_receiverFields h.diagnostic _), fields_notes,
    perform_extendFrom_list hlist]
  exact h.appendNotes hv

/-- Notes are appended one by one to the same effect. -/
theorem IsAt.withNotesEach (h : s.IsAt σ p) (hv : σ.OffersClear p.Has v) :
    { s with notes := s.notes ++ textsOf σ v }.IsAt
        ((Builder.withNotesEach (.object p.diagnostic) v).perform σ).2 p ∧
      (((Builder.withNotesEach (.object p.diagnostic) v).perform σ).1 = .ok () ↔
        ∃ vs τ, σ.elements? v = some (vs, τ) ∧ ∀ w ∈ vs, ∃ t, textOf τ w = .ok t) := by
  rw [Builder.withNotesEach, perform_bind_of_ok _ (perform_receiverFields h.diagnostic _)]
  exact h.appendNotes hv

/-- **Calls.** A call with an argument that has nothing to do with the diagnostic changes it by what
the call contributes. -/
theorem IsAt.call (h : s.IsAt σ p) (c : Call) (hc : σ.OffersClear p.Has c.argument) :
    (s.after σ c).IsAt ((c.act (.object p.diagnostic)).perform σ).2 p ∧
      (((c.act (.object p.diagnostic)).perform σ).1 = .ok () ↔ c.Succeeds σ) := by
  obtain ⟨method, v⟩ := c
  have hne : v ≠ .object p.labels := by
    rintro rfl
    exact (hc.1 _ (.here _)).2 (.inr (.inl rfl))
  cases method with
  | code =>
    rw [after_code rfl]
    exact h.withCode v
  | message =>
    rw [after_message rfl]
    exact h.withMessage v
  | labels =>
    obtain ⟨hafter, hok, -⟩ := h.withLabels v
    rw [after_labels rfl]
    exact ⟨hafter, hok⟩
  | labelsEach =>
    obtain ⟨hafter, hok, -⟩ := h.withLabelsEach hne
    rw [after_labels rfl]
    exact ⟨hafter, hok⟩
  | notes =>
    rw [after_notes rfl]
    exact h.withNotes hc
  | notesEach =>
    rw [after_notes rfl]
    exact h.withNotesEach hc

end Sketch

end Builder

end Diagnostics
