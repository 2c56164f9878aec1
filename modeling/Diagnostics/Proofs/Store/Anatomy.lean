import Diagnostics.Proofs.Exchange.Content
import Diagnostics.Proofs.Store.Reach
import Diagnostics.Proofs.Store.WellFormed

/-!
# What a diagnostic consists of

A diagnostic is not one object but several: itself, its two lists, its labels and their ranges. Its
anatomy (`Anatomy`) lists them together with what they hold. A diagnostic has an anatomy as soon as
all that it owns is well-formed (`IsSound.exists_anatomy`), whatever the rest of the store is like and
however its parts are shared; the same label can be there at several positions.

It owns nothing but the objects of its anatomy (`Anatomy.IsIn.mem_objects`), reaches beyond them only
through the files of its labels (`Anatomy.IsIn.reaches`), and shows what the anatomy says
(`Anatomy.IsIn.view`).
-/

namespace Diagnostics

/-- A label with its range. -/
structure Part where
  label : Loc
  range : Loc
  style : LabelStyle
  fileId : Value
  bounds : ByteRange
  message : String

/-- A diagnostic with its lists and its labels. -/
structure Anatomy where
  diagnostic : Loc
  labelList : Loc
  noteList : Loc
  severity : Severity
  code : Option String
  message : String
  parts : List Part
  notes : List Value

/-- Whether a label lies in a store. -/
structure Part.IsIn (σ : Store) (p : Part) : Prop where
  label : σ.get? p.label =
    some (.label ⟨.style p.style, p.fileId, .object p.range, .text p.message⟩)
  range : σ.get? p.range = some (.byteRange ⟨.int p.bounds.start, .int p.bounds.stop⟩)

/-- What a label holds where its file shows some data. -/
def Part.content (file : Data) (p : Part) : LabelContent := ⟨p.style, file, p.bounds, p.message⟩

namespace Anatomy

/-- Whether a diagnostic lies in a store. -/
structure IsIn (σ : Store) (a : Anatomy) : Prop where
  diagnostic : σ.get? a.diagnostic = some (.diagnostic ⟨.severity a.severity,
    (a.code.map Value.text).getD .none, .text a.message, .object a.labelList, .object a.noteList⟩)
  labelList : σ.get? a.labelList = some (.list (a.parts.map fun p => .object p.label))
  noteList : σ.get? a.noteList = some (.list a.notes)
  parts : ∀ p ∈ a.parts, p.IsIn σ
  notes : ∀ v ∈ a.notes, v.IsTextual

/-- The objects that a diagnostic consists of, with a label and a range for each position. -/
def objects (a : Anatomy) : List Loc :=
  (a.parts.flatMap fun p => [p.range, p.label]) ++ [a.labelList, a.noteList, a.diagnostic]

/-- The texts of the notes. -/
def lines (a : Anatomy) : List String := a.notes.map fun v => v.asText?.getD ""

/-- What a diagnostic holds where the files of its labels all show the same. -/
def content (file : Data) (a : Anatomy) : DiagnosticContent :=
  ⟨a.severity, a.code, a.message, a.parts.map (Part.content file), a.lines⟩

theorem mem_objects_of_part {a : Anatomy} {p : Part} (hp : p ∈ a.parts) :
    p.label ∈ a.objects ∧ p.range ∈ a.objects := by
  have hmem : ∀ k ∈ [p.range, p.label], k ∈ a.objects := by
    intro k hk
    exact List.mem_append_left _ (List.mem_flatMap.2 ⟨p, hp, hk⟩)
  exact ⟨hmem _ (by simp), hmem _ (by simp)⟩

theorem mem_objects_diagnostic (a : Anatomy) : a.diagnostic ∈ a.objects := by simp [objects]

theorem cases_of_mem_objects {a : Anatomy} {k : Loc} (hk : k ∈ a.objects) :
    k = a.diagnostic ∨ k = a.labelList ∨ k = a.noteList ∨
      ∃ p ∈ a.parts, k = p.label ∨ k = p.range := by
  simp only [objects, List.mem_append, List.mem_flatMap, List.mem_cons, List.not_mem_nil,
    or_false] at hk
  rcases hk with ⟨p, hp, hk⟩ | hk | hk | hk
  · exact .inr (.inr (.inr ⟨p, hp, hk.symm⟩))
  · exact .inr (.inl hk)
  · exact .inr (.inr (.inl hk))
  · exact .inl hk

end Anatomy

namespace Store

variable {σ τ : Store} {l k : Loc} {v : Value} {d : DiagnosticFields}

/-! ## Sound diagnostics -/

/-- Whether all records that belong to a value hold what they were declared for. -/
def IsSound (σ : Store) (v : Value) : Prop :=
  ∀ k c, σ.Owns v k → σ.get? k = some c → c.IsWellFormed σ

theorem IsWellFormed.isSound (h : σ.IsWellFormed) (v : Value) : σ.IsSound v :=
  fun k c _ hk => h.records k c hk

theorem IsSound.of_mem {c : Cell} (h : σ.IsSound (.object l)) (hl : σ.get? l = some c)
    (hv : v ∈ c.own) : σ.IsSound v :=
  fun k c' hk => h k c' (.through hl hv hk)

theorem IsSound.exists_part (h : σ.IsSound v) (hv : σ.IsLabel v) :
    ∃ p : Part, v = .object p.label ∧ p.IsIn σ := by
  obtain ⟨f, hf⟩ := hv
  obtain ⟨l, rfl, hl⟩ := exists_of_cell? hf
  obtain ⟨⟨s, hs⟩, ⟨r, hr⟩, m, hm⟩ : f.IsWellFormed σ := h l _ (.here l) hl
  obtain ⟨k, hrange, hk⟩ := exists_of_cell? hr
  have howned : σ.Owns (.object l) k :=
    .through hl (v := f.range) (by simp [Cell.own]) (hrange ▸ .here k)
  obtain ⟨⟨i, hi⟩, j, hj⟩ : r.IsWellFormed := h k _ howned hk
  obtain ⟨style, fileId, range, message⟩ := f
  obtain ⟨start, stop⟩ := r
  dsimp only at hs hm hrange hi hj
  subst hs hm hrange hi hj
  exact ⟨⟨l, k, s, fileId, ⟨i, j⟩, m⟩, rfl, hl, hk⟩

theorem exists_parts {vs : List Value} (hlabels : ∀ v ∈ vs, σ.IsLabel v)
    (hsound : ∀ v ∈ vs, σ.IsSound v) :
    ∃ ps : List Part, vs = ps.map (fun p => .object p.label) ∧ ∀ p ∈ ps, p.IsIn σ := by
  induction vs with
  | nil => exact ⟨[], rfl, List.forall_mem_nil _⟩
  | cons v vs ih =>
    obtain ⟨hv, hvs⟩ := List.forall_mem_cons.1 hlabels
    obtain ⟨hsv, hsvs⟩ := List.forall_mem_cons.1 hsound
    obtain ⟨p, rfl, hp⟩ := hsv.exists_part hv
    obtain ⟨ps, rfl, hps⟩ := ih hvs hsvs
    exact ⟨p :: ps, rfl, List.forall_mem_cons.2 ⟨hp, hps⟩⟩

/-- **Anatomies.** A diagnostic that owns nothing but what is well-formed has an anatomy. -/
theorem IsSound.exists_anatomy (h : σ.IsSound (.object l)) (hl : σ.get? l = some (.diagnostic d)) :
    ∃ a : Anatomy, a.diagnostic = l ∧ a.IsIn σ := by
  obtain ⟨⟨s, hs⟩, hcode, ⟨m, hm⟩, ⟨items, hitems, hlabels⟩, lines, hlines, hnotes⟩ :
    d.IsWellFormed σ := h l _ (.here l) hl
  obtain ⟨i, hd, hi⟩ := exists_of_cell? hitems
  obtain ⟨j, hd', hj⟩ := exists_of_cell? hlines
  obtain ⟨code, hcode⟩ : ∃ code : Option String, d.code = (code.map Value.text).getD .none := by
    clear hl
    rcases hcode with hnone | ⟨t, ht⟩
    · exact ⟨none, hnone⟩
    · exact ⟨some t, ht⟩
  -- every label of the list is sound, for the diagnostic owns the list
  have hsound : ∀ w ∈ items, σ.IsSound w := by
    intro w hw
    have hlist : σ.IsSound d.labels := h.of_mem hl (by simp [Cell.own, Cell.held])
    rw [hd] at hlist
    exact hlist.of_mem hi hw
  obtain ⟨ps, rfl, hps⟩ := exists_parts hlabels hsound
  refine ⟨⟨l, i, j, s, code, m, ps, lines⟩, rfl, ?_, hi, hj, hps, hnotes⟩
  rw [hl, ← hs, ← hcode, ← hm, ← hd, ← hd']

end Store

/-! ## Anatomies -/

theorem Part.IsIn.grows {σ τ : Store} {p : Part} (h : p.IsIn σ) (hστ : σ.Grows τ) : p.IsIn τ :=
  ⟨hστ.get? h.label, hστ.get? h.range⟩

/-- A label shows what its part says. -/
theorem Part.IsIn.view {σ : Store} {p : Part} (h : p.IsIn σ) {file : Data}
    (hfile : σ.view p.fileId = some file) :
    σ.view (.object p.label) = some (p.content file).data := by
  have hrange : σ.view (.object p.range) = some p.bounds.data :=
    Store.view_iff_unfolds.2 (.byteRange h.range (Store.view_int σ _) (Store.view_int σ _))
  refine Store.view_iff_unfolds.2 (.label h.label ?_ hfile hrange (Store.view_text σ _))
  exact Store.view_of_unfold_zero rfl

namespace Anatomy.IsIn

open Store

variable {σ τ : Store} {a : Anatomy} {k : Loc}

theorem grows (h : a.IsIn σ) (hστ : σ.Grows τ) : a.IsIn τ :=
  ⟨hστ.get? h.diagnostic, hστ.get? h.labelList, hστ.get? h.noteList,
    fun p hp => (h.parts p hp).grows hστ, h.notes⟩

/-- The objects of a diagnostic are there. -/
theorem lt_size (h : a.IsIn σ) (hk : k ∈ a.objects) : k < σ.size := by
  rcases cases_of_mem_objects hk with rfl | rfl | rfl | ⟨p, hp, rfl | rfl⟩
  · exact lt_size_of_get? h.diagnostic
  · exact lt_size_of_get? h.labelList
  · exact lt_size_of_get? h.noteList
  · exact lt_size_of_get? (h.parts p hp).label
  · exact lt_size_of_get? (h.parts p hp).range

/-- An object of a diagnostic has as its own only others of them, and it holds besides only the
file of a label. -/
theorem cases_of_mem_held (h : a.IsIn σ) {l : Loc} {c : Cell} {v : Value} (hl : l ∈ a.objects)
    (hc : σ.get? l = some c) (hv : v ∈ c.held) :
    (v ∈ c.own ∨ ∃ p ∈ a.parts, v = p.fileId) ∧
      (v ∈ c.own → ∀ m, v = .object m → m ∈ a.objects) := by
  rcases cases_of_mem_objects hl with rfl | rfl | rfl | ⟨p, hp, rfl | rfl⟩
  · obtain rfl := Option.some.inj (hc.symm.trans h.diagnostic)
    refine ⟨.inl hv, ?_⟩
    rintro hown m rfl
    have hm : m = a.labelList ∨ m = a.noteList := by
      rcases hcode : a.code with _ | s <;> simpa [Cell.own, Cell.held, hcode] using hown
    rcases hm with rfl | rfl <;> simp [objects]
  · obtain rfl := Option.some.inj (hc.symm.trans h.labelList)
    refine ⟨.inl hv, ?_⟩
    rintro hown m rfl
    obtain ⟨p, hp, hm⟩ := List.mem_map.1 hown
    exact Value.object.inj hm ▸ (mem_objects_of_part hp).1
  · obtain rfl := Option.some.inj (hc.symm.trans h.noteList)
    refine ⟨.inl hv, ?_⟩
    rintro hown m rfl
    exact absurd (h.notes _ hown) (by simp [Value.IsTextual, Value.asText?])
  · obtain rfl := Option.some.inj (hc.symm.trans (h.parts p hp).label)
    constructor
    · simp only [Cell.held, Cell.own, List.mem_cons, List.not_mem_nil, or_false] at hv ⊢
      rcases hv with hv | hv | hv | hv
      · exact .inl (.inl hv)
      · exact .inr ⟨p, hp, hv⟩
      · exact .inl (.inr (.inl hv))
      · exact .inl (.inr (.inr hv))
    · rintro hown m rfl
      simp only [Cell.own, List.mem_cons, List.not_mem_nil, or_false, reduceCtorEq, false_or,
        Value.object.injEq] at hown
      exact hown ▸ (mem_objects_of_part hp).2
  · obtain rfl := Option.some.inj (hc.symm.trans (h.parts p hp).range)
    refine ⟨.inl hv, ?_⟩
    rintro hown m rfl
    simp [Cell.own, Cell.held] at hown

/-- **Owned objects.** A diagnostic owns the objects that it consists of. -/
theorem mem_objects (h : a.IsIn σ) (hk : σ.Owns (.object a.diagnostic) k) : k ∈ a.objects := by
  have hclosed : ∀ v k, σ.Owns v k → (∀ l, v = .object l → l ∈ a.objects) → k ∈ a.objects := by
    intro v k hk
    induction hk with
    | here l => exact fun hl => hl l rfl
    | through cell mem _ ih =>
      intro hl
      refine ih ((h.cases_of_mem_held (hl _ rfl) cell (Cell.own_subset_held _ mem)).2 mem)
  refine hclosed _ k hk fun l hl => ?_
  exact Value.object.inj hl ▸ a.mem_objects_diagnostic

theorem owns (h : a.IsIn σ) (hk : k ∈ a.objects) : σ.Owns (.object a.diagnostic) k := by
  rcases cases_of_mem_objects hk with rfl | rfl | rfl | ⟨p, hp, hk⟩
  · exact .here _
  · exact .through h.diagnostic (by simp [Cell.own, Cell.held]) (.here _)
  · exact .through h.diagnostic (by simp [Cell.own, Cell.held]) (.here _)
  · have hlabel : σ.Owns (.object a.diagnostic) p.label :=
      .through h.diagnostic (v := .object a.labelList) (by simp [Cell.own, Cell.held])
        (.through h.labelList (List.mem_map_of_mem hp) (.here _))
    rcases hk with rfl | rfl
    · exact hlabel
    · refine hlabel.trans (.through (h.parts p hp).label ?_ (.here _))
      simp [Cell.own]

/-- **Reached objects.** Beyond its objects a diagnostic reaches the files of its labels. -/
theorem reaches (h : a.IsIn σ) (hk : σ.Reaches (.object a.diagnostic) k) :
    k ∈ a.objects ∨ ∃ p ∈ a.parts, σ.Reaches p.fileId k := by
  have hclosed : ∀ v k, σ.Reaches v k → (∀ l, v = .object l → l ∈ a.objects) →
      k ∈ a.objects ∨ ∃ p ∈ a.parts, σ.Reaches p.fileId k := by
    intro v k hk
    induction hk with
    | here l => exact fun hl => .inl (hl l rfl)
    | through cell mem rest ih =>
      intro hl
      obtain ⟨hown | ⟨p, hp, rfl⟩, hobject⟩ := h.cases_of_mem_held (hl _ rfl) cell mem
      · exact ih (hobject hown)
      · exact .inr ⟨p, hp, rest⟩
  refine hclosed _ k hk fun l hl => ?_
  exact Value.object.inj hl ▸ a.mem_objects_diagnostic

/-- What has an anatomy owns nothing but what is well-formed. -/
theorem isSound (h : a.IsIn σ) : σ.IsSound (.object a.diagnostic) := by
  intro k c hk hc
  have hlist : ∀ p ∈ a.parts, σ.IsLabel (.object p.label) := fun p hp => ⟨_, (h.parts p hp).label⟩
  rcases cases_of_mem_objects (h.mem_objects hk) with rfl | rfl | rfl | ⟨p, hp, rfl | rfl⟩
  · obtain rfl := Option.some.inj (hc.symm.trans h.diagnostic)
    refine ⟨⟨_, rfl⟩, ?_, ⟨_, rfl⟩, ⟨_, h.labelList, List.forall_mem_map.2 hlist⟩,
      ⟨_, h.noteList, h.notes⟩⟩
    rcases a.code with _ | s
    · exact .inl rfl
    · exact .inr ⟨s, rfl⟩
  · obtain rfl := Option.some.inj (hc.symm.trans h.labelList)
    trivial
  · obtain rfl := Option.some.inj (hc.symm.trans h.noteList)
    trivial
  · obtain rfl := Option.some.inj (hc.symm.trans (h.parts p hp).label)
    exact ⟨⟨_, rfl⟩, ⟨_, (h.parts p hp).range⟩, ⟨_, rfl⟩⟩
  · obtain rfl := Option.some.inj (hc.symm.trans (h.parts p hp).range)
    exact ⟨⟨_, rfl⟩, ⟨_, rfl⟩⟩

/-! ## How anatomies show -/

/-- A diagnostic shows what its anatomy says. -/
theorem view (h : a.IsIn σ) {file : Data} (hfile : ∀ p ∈ a.parts, σ.view p.fileId = some file)
    (hnotes : ∀ v ∈ a.notes, v.IsText) :
    σ.view (.object a.diagnostic) = some (a.content file).data := by
  have hlabels : σ.view (.object a.labelList) =
      some (.list ((a.content file).labels.map LabelContent.data)) := by
    refine view_iff_unfolds.2 (.list h.labelList ?_)
    rw [content, List.map_map, List.forall₂_map_left_iff, List.forall₂_map_right_iff,
      List.forall₂_same]
    exact fun p hp => (h.parts p hp).view (hfile p hp)
  have hlines : σ.view (.object a.noteList) =
      some (.list ((a.content file).notes.map Data.text)) := by
    refine view_iff_unfolds.2 (.list h.noteList ?_)
    rw [content, lines, List.map_map, List.forall₂_map_right_iff, List.forall₂_same]
    intro v hv
    obtain ⟨s, rfl⟩ := hnotes v hv
    exact view_text σ s
  have hcode : σ.view ((a.code.map Value.text).getD .none) =
      some ((a.code.map Data.text).getD .none) := by
    rcases a.code with _ | s
    · exact view_none σ
    · exact view_text σ s
  refine view_iff_unfolds.2 (.diagnostic h.diagnostic ?_ hcode (view_text σ _) hlabels hlines)
  exact view_of_unfold_zero rfl

end Anatomy.IsIn

end Diagnostics
