import Diagnostics.Proofs.Store.Calm

/-!
# Well-formed stores

A field can hold any value, so nothing in a store itself says that a record holds what it was
declared for. A store is well-formed (`Store.IsWellFormed`) when every record in it does: bounds of
ranges are integers not below zero, labels hold a style, a range and a message, and diagnostics hold
a level, a code or none, a message, a list of labels and a list of texts.

Lists are shared, and an appended item is seen wherever the list is, so no list may be for labels
here and for notes there (`IsWellFormed.apart`). That is kept by each way to change a store: by new
objects (`IsWellFormed.alloc`), by other values in the fields of a record
(`IsWellFormed.update_record`) and by more items in a list (`IsWellFormed.update_list`); and of
course where no record changes (`IsWellFormed.calm`).
-/

namespace Diagnostics

/-! ## Well-formed records -/

/-- Whether a value is an integer that is not below zero. -/
def Value.IsOffset (v : Value) : Prop := ∃ n : Nat, v = .int n

/-- Whether a value is a text. -/
def Value.IsText (v : Value) : Prop := ∃ s, v = .text s

/-- Whether a value is a text, or a level or a style, which are texts as well. -/
def Value.IsTextual (v : Value) : Prop := v.asText?.isSome

/-- Whether a value stands for a byte range. -/
def Store.IsByteRange (σ : Store) (v : Value) : Prop := ∃ r, σ.cell? v = some (.byteRange r)

/-- Whether a value stands for a label. -/
def Store.IsLabel (σ : Store) (v : Value) : Prop := ∃ f, σ.cell? v = some (.label f)

/-- Whether a value stands for a list all of whose items have a property. -/
def Store.IsListOf (σ : Store) (P : Value → Prop) (v : Value) : Prop :=
  ∃ items, σ.cell? v = some (.list items) ∧ ∀ w ∈ items, P w

/-- Whether a byte range holds two offsets. -/
structure RangeFields.IsWellFormed (r : RangeFields) : Prop where
  start : r.start.IsOffset
  stop : r.stop.IsOffset

/-- Whether a label holds a style, a byte range and a message. -/
structure LabelFields.IsWellFormed (σ : Store) (f : LabelFields) : Prop where
  style : ∃ s, f.style = .style s
  range : σ.IsByteRange f.range
  message : f.message.IsText

/-- Whether a diagnostic holds a level, a code or none, a message, labels and notes. -/
structure DiagnosticFields.IsWellFormed (σ : Store) (d : DiagnosticFields) : Prop where
  severity : ∃ s, d.severity = .severity s
  code : d.code = .none ∨ d.code.IsText
  message : d.message.IsText
  labels : σ.IsListOf σ.IsLabel d.labels
  notes : σ.IsListOf Value.IsTextual d.notes

/-- Whether an object, if it is a record, holds what it was declared for. -/
def Cell.IsWellFormed (σ : Store) : Cell → Prop
  | .byteRange r => r.IsWellFormed
  | .label f => f.IsWellFormed σ
  | .diagnostic d => d.IsWellFormed σ
  | _ => True

/-- Whether all records hold what they were declared for, and no list is for labels and for notes at
once. -/
structure Store.IsWellFormed (σ : Store) : Prop where
  records : ∀ l c, σ.get? l = some c → c.IsWellFormed σ
  apart : ∀ k m d e, σ.get? k = some (.diagnostic d) → σ.get? m = some (.diagnostic e) →
    d.labels ≠ e.notes

/-- Whether a value stands for the labels of a diagnostic. -/
def Store.IsLabels (σ : Store) (v : Value) : Prop :=
  ∃ k d, σ.get? k = some (.diagnostic d) ∧ d.labels = v

/-- Whether a value stands for the notes of a diagnostic. -/
def Store.IsNotes (σ : Store) (v : Value) : Prop :=
  ∃ k d, σ.get? k = some (.diagnostic d) ∧ d.notes = v

/-- What is no record has nothing to hold that was declared. -/
theorem Cell.isWellFormed_of_plain {σ : Store} {c : Cell} (hc : c.fields? = none) :
    c.IsWellFormed σ := by
  cases c with
  | byteRange | label | diagnostic => cases hc
  | _ => trivial

/-- Only a byte range has the name of one for its type. -/
theorem Cell.exists_byteRange {c : Cell} (hc : c.typeName = "ByteRange") :
    ∃ r, c = .byteRange r := by
  cases c with
  | byteRange r => exact ⟨r, rfl⟩
  | _ => simp [typeName] at hc

/-- Only a label has the name of one for its type. -/
theorem Cell.exists_label {c : Cell} (hc : c.typeName = "Label") : ∃ f, c = .label f := by
  cases c with
  | label f => exact ⟨f, rfl⟩
  | _ => simp [typeName] at hc

namespace Store

variable {σ τ : Store} {l : Loc} {c c' : Cell} {v : Value}

/-- Without objects nothing is amiss. -/
theorem isWellFormed_empty : Store.empty.IsWellFormed where
  records := by
    intro l c hl
    cases hl
  apart := by
    intro k m d e hk
    cases hk

/-! ## What stays -/

/-- Whether ranges and labels of a store are still there, and lists are what they were. -/
structure Retains (σ τ : Store) : Prop where
  range : ∀ v, σ.IsByteRange v → τ.IsByteRange v
  label : ∀ v, σ.IsLabel v → τ.IsLabel v
  list : ∀ v vs, σ.cell? v = some (.list vs) → τ.cell? v = some (.list vs)

/-- Where nothing but one-shot sequences changes, all that stays. -/
theorem retains_of_get? (h : ∀ l c, σ.get? l = some c → (∀ vs, c ≠ .iterator vs) →
    τ.get? l = some c) : σ.Retains τ := by
  have cells : ∀ v c, σ.cell? v = some c → (∀ vs, c ≠ .iterator vs) → τ.cell? v = some c := by
    intro v c hv hc
    obtain ⟨l, rfl, hl⟩ := exists_of_cell? hv
    exact h l c hl hc
  constructor
  · rintro v ⟨r, hv⟩
    exact ⟨r, cells v _ hv nofun⟩
  · rintro v ⟨f, hv⟩
    exact ⟨f, cells v _ hv nofun⟩
  · intro v vs hv
    exact cells v _ hv nofun

theorem Grows.retains (h : σ.Grows τ) : σ.Retains τ := retains_of_get? fun _ _ hl _ => h.get? hl

theorem Calm.retains (h : σ.Calm τ) : σ.Retains τ := retains_of_get? fun _ _ hl hc => h.get?_eq hl hc

theorem Retains.isListOf (h : σ.Retains τ) {P Q : Value → Prop} (hPQ : ∀ v, P v → Q v)
    (hv : σ.IsListOf P v) : τ.IsListOf Q v := by
  obtain ⟨vs, hvs, hall⟩ := hv
  exact ⟨vs, h.list v vs hvs, fun w hw => hPQ w (hall w hw)⟩

/-- A record is well-formed wherever all that it refers to is still there. -/
theorem Retains.cell (h : σ.Retains τ) (hc : c.IsWellFormed σ) : c.IsWellFormed τ := by
  cases c with
  | byteRange r => exact hc
  | label f => exact ⟨hc.style, h.range _ hc.range, hc.message⟩
  | diagnostic d =>
    exact ⟨hc.severity, hc.code, hc.message, h.isListOf h.label hc.labels,
      h.isListOf (fun _ hw => hw) hc.notes⟩
  | _ => trivial

/-! ## What keeps a store well-formed -/

/-- A calm change leaves all records well-formed: none is new, and what they refer to is still
there. -/
theorem IsWellFormed.calm (h : σ.IsWellFormed) (hστ : σ.Calm τ) : τ.IsWellFormed where
  records := by
    intro l c hl
    by_cases hc : c.fields? = none
    · exact Cell.isWellFormed_of_plain hc
    · have hold := hστ.get?_of_record hl (Option.isSome_iff_ne_none.2 hc)
      exact hστ.retains.cell (h.records l c hold)
  apart := by
    intro k m d e hk hm
    exact h.apart k m d e (hστ.get?_of_record hk rfl) (hστ.get?_of_record hm rfl)

/-- A new object, which if it is a diagnostic does not mix up its lists with those of others. -/
theorem IsWellFormed.alloc (h : σ.IsWellFormed) (hc : c.IsWellFormed σ)
    (hlists : ∀ d, c = .diagnostic d → d.labels ≠ d.notes ∧
      ∀ k e, σ.get? k = some (.diagnostic e) → d.labels ≠ e.notes ∧ e.labels ≠ d.notes) :
    (σ.alloc c).2.IsWellFormed := by
  have cases_of_get? : ∀ {l x}, (σ.alloc c).2.get? l = some x → x = c ∨ σ.get? l = some x := by
    intro l x hl
    by_cases hnew : l = σ.size
    · rw [hnew, get?_alloc_self] at hl
      exact .inl (Option.some.inj hl).symm
    · rw [get?_alloc_of_ne σ c hnew] at hl
      exact .inr hl
  constructor
  · intro l x hl
    refine (Grows.alloc σ c).retains.cell ?_
    rcases cases_of_get? hl with rfl | hold
    · exact hc
    · exact h.records l x hold
  · intro k m d e hk hm
    rcases cases_of_get? hk with hd | hd
    · rcases cases_of_get? hm with he | he
      · obtain rfl : d = e := Cell.diagnostic.inj (hd.trans he.symm)
        exact (hlists d hd.symm).1
      · exact ((hlists d hd.symm).2 m e he).1
    · rcases cases_of_get? hm with he | he
      · exact ((hlists e he.symm).2 k d hd).2
      · exact h.apart k m d e hd he

/-- A new object that is no diagnostic. -/
theorem IsWellFormed.alloc_other (h : σ.IsWellFormed) (hc : c.IsWellFormed σ)
    (hne : ∀ d, c ≠ .diagnostic d) : (σ.alloc c).2.IsWellFormed :=
  h.alloc hc fun d hd => absurd hd (hne d)

/-- A copy of an object has the same lists. -/
theorem IsWellFormed.alloc_copy (h : σ.IsWellFormed) (hl : σ.get? l = some c) :
    (σ.alloc c).2.IsWellFormed := by
  refine h.alloc (h.records l c hl) ?_
  rintro d rfl
  refine ⟨h.apart l l d d hl hl, fun k e hk => ⟨h.apart l k d e hl hk, h.apart k l e d hk hl⟩⟩

theorem get?_update (hl : σ.get? l = some c) (c' : Cell) (k : Loc) :
    (σ.update l c').get? k = if k = l then some c' else σ.get? k := by
  by_cases hk : k = l
  · subst hk
    rw [get?_update_self σ c' (lt_size_of_get? hl), if_pos rfl]
  · rw [get?_update_ne σ c' (Ne.symm hk), if_neg hk]

theorem cell?_update (hl : σ.get? l = some c) (c' : Cell) (v : Value) :
    (σ.update l c').cell? v = if v = .object l then some c' else σ.cell? v := by
  cases v with
  | object k =>
    simp only [cell?, Value.object.injEq]
    exact get?_update hl c' k
  | _ => rfl

/-- A byte range is still there after an update that keeps to the type of the object. -/
theorem isByteRange_update (hl : σ.get? l = some c) (htype : c'.typeName = c.typeName)
    (hv : σ.IsByteRange v) : (σ.update l c').IsByteRange v := by
  obtain ⟨r, hr⟩ := hv
  by_cases hvl : v = .object l
  · rw [hvl, cell?, hl] at hr
    obtain rfl := Option.some.inj hr
    obtain ⟨r', hr'⟩ := Cell.exists_byteRange htype
    exact ⟨r', by rw [cell?_update hl, if_pos hvl, hr']⟩
  · exact ⟨r, by rw [cell?_update hl, if_neg hvl, hr]⟩

/-- A label is still there after an update that keeps to the type of the object. -/
theorem isLabel_update (hl : σ.get? l = some c) (htype : c'.typeName = c.typeName)
    (hv : σ.IsLabel v) : (σ.update l c').IsLabel v := by
  obtain ⟨f, hf⟩ := hv
  by_cases hvl : v = .object l
  · rw [hvl, cell?, hl] at hf
    obtain rfl := Option.some.inj hf
    obtain ⟨f', hf'⟩ := Cell.exists_label htype
    exact ⟨f', by rw [cell?_update hl, if_pos hvl, hf']⟩
  · exact ⟨f, by rw [cell?_update hl, if_neg hvl, hf]⟩

theorem retains_update (hl : σ.get? l = some c) (htype : c'.typeName = c.typeName)
    (hlist : c.typeName ≠ "list") : σ.Retains (σ.update l c') := by
  refine ⟨fun v => isByteRange_update hl htype, fun v => isLabel_update hl htype, ?_⟩
  intro v vs hv
  have hne : v ≠ .object l := by
    rintro rfl
    rw [cell?, hl] at hv
    obtain rfl := Option.some.inj hv
    exact hlist rfl
  rw [cell?_update hl, if_neg hne, hv]

/-- Other fields in a record, of which a diagnostic keeps its lists. -/
theorem IsWellFormed.update_record (h : σ.IsWellFormed) (hl : σ.get? l = some c)
    (htype : c'.typeName = c.typeName) (hlist : c.typeName ≠ "list") (hc' : c'.IsWellFormed σ)
    (hkept : ∀ d', c' = .diagnostic d' →
      ∃ d, c = .diagnostic d ∧ d'.labels = d.labels ∧ d'.notes = d.notes) :
    (σ.update l c').IsWellFormed := by
  have old : ∀ {k e'}, (σ.update l c').get? k = some (.diagnostic e') →
      ∃ e, σ.get? k = some (.diagnostic e) ∧ e'.labels = e.labels ∧ e'.notes = e.notes := by
    intro k e' hk
    rw [get?_update hl] at hk
    split at hk
    · next hkl =>
      obtain ⟨d, rfl, hd⟩ := hkept e' (Option.some.inj hk)
      exact ⟨d, hkl ▸ hl, hd⟩
    · exact ⟨e', hk, rfl, rfl⟩
  constructor
  · intro k x hk
    refine (retains_update hl htype hlist).cell ?_
    rw [get?_update hl] at hk
    split at hk
    · rw [← Option.some.inj hk]
      exact hc'
    · exact h.records k x hk
  · intro k m d' e' hk hm
    obtain ⟨d, hd, hlabels, -⟩ := old hk
    obtain ⟨e, he, -, hnotes⟩ := old hm
    rw [hlabels, hnotes]
    exact h.apart k m d e hd he

/-- Other items in a list, which are labels if it is for labels and texts if it is for notes. -/
theorem IsWellFormed.update_list (h : σ.IsWellFormed) {vs vs' : List Value}
    (hl : σ.get? l = some (.list vs)) (hlabels : σ.IsLabels (.object l) → ∀ v ∈ vs', σ.IsLabel v)
    (hnotes : σ.IsNotes (.object l) → ∀ v ∈ vs', v.IsTextual) :
    (σ.update l (.list vs')).IsWellFormed := by
  have old : ∀ {k x}, (σ.update l (.list vs')).get? k = some x →
      x = .list vs' ∨ σ.get? k = some x := by
    intro k x hk
    rw [get?_update hl] at hk
    split at hk
    · exact .inl (Option.some.inj hk).symm
    · exact .inr hk
  -- the list itself may have changed, so it is looked at apart from all others
  have lists : ∀ {P Q : Value → Prop} {v}, (∀ w, P w → Q w) → (v = .object l → ∀ w ∈ vs', P w) →
      σ.IsListOf P v → (σ.update l (.list vs')).IsListOf Q v := by
    rintro P Q v hPQ hnew ⟨items, hitems, hP⟩
    by_cases hv : v = .object l
    · exact ⟨vs', by rw [cell?_update hl, if_pos hv], fun w hw => hPQ w (hnew hv w hw)⟩
    · exact ⟨items, by rw [cell?_update hl, if_neg hv, hitems], fun w hw => hPQ w (hP w hw)⟩
  constructor
  · intro k x hk
    rcases old hk with rfl | hk
    · trivial
    · have hx := h.records k x hk
      cases x with
      | byteRange r => exact hx
      | label f => exact ⟨hx.style, isByteRange_update hl rfl hx.range, hx.message⟩
      | diagnostic d =>
        exact ⟨hx.severity, hx.code, hx.message,
          lists (fun _ => isLabel_update hl rfl) (fun hd => hlabels ⟨k, d, hk, hd⟩) hx.labels,
          lists (fun _ hw => hw) (fun hd => hnotes ⟨k, d, hk, hd⟩) hx.notes⟩
      | _ => trivial
  · intro k m d e hk hm
    rcases old hk with hk | hk
    · cases hk
    · rcases old hm with hm | hm
      · cases hm
      · exact h.apart k m d e hk hm

end Store

end Diagnostics
