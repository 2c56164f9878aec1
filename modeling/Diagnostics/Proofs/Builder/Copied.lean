import Diagnostics.Proofs.Builder.Rebound
import Diagnostics.Proofs.Store.Anatomy
import Diagnostics.Proofs.Store.Extends

/-!
# What rebinding makes

Rebinding a diagnostic makes all of its objects anew. For each position there is a copy of the file,
a copy of the range and a label, in this order; after them come the two lists and the diagnostic
(`Anatomy.made`). Hence the objects of the new diagnostic lie at growing locations, beyond all that
there was (`Store.Span`), however the old ones were shared. What they hold is what the old ones held,
but for the file (`Anatomy.Rebound`, `withFile_rebound`).
-/

namespace Diagnostics

variable {σ τ ρ : Store} {v w fileId : Value} {k l : Loc}

/-! ## What is made in order -/

/-- Whether some objects were made on the way from one store to another, in order. -/
structure Store.Span (σ τ : Store) (ks : List Loc) : Prop where
  size_le : σ.size ≤ τ.size
  mem : ∀ k ∈ ks, σ.size ≤ k ∧ k < τ.size
  ordered : ks.Pairwise (· < ·)

/-- Whether a value is another one, or stands for an object that holds the same. -/
inductive Store.Copied (σ : Store) : Value → Value → Prop where
  | plain (v : Value) (h : v.loc? = none) : Copied σ v v
  | object {l k : Loc} {c : Cell} (source : σ.get? l = some c) (copy : σ.get? k = some c) :
    Copied σ (.object l) (.object k)

/-- Whether a value is no object, or a list or a table. -/
def Store.IsCopyable (σ : Store) (v : Value) : Prop :=
  ∀ l, v = .object l →
    (∃ items, σ.get? l = some (.list items)) ∨ ∃ entries, σ.get? l = some (.table entries)

namespace Store

variable {ks ms : List Loc}

theorem Span.nil (h : σ.size ≤ τ.size) : σ.Span τ [] := ⟨h, List.forall_mem_nil _, .nil⟩

theorem Span.append (h : σ.Span τ ks) (h' : τ.Span ρ ms) : σ.Span ρ (ks ++ ms) where
  size_le := Nat.le_trans h.size_le h'.size_le
  mem := by
    intro k hk
    rcases List.mem_append.1 hk with hk | hk
    · exact ⟨(h.mem k hk).1, Nat.lt_of_lt_of_le (h.mem k hk).2 h'.size_le⟩
    · exact ⟨Nat.le_trans h.size_le (h'.mem k hk).1, (h'.mem k hk).2⟩
  ordered := List.pairwise_append.2 ⟨h.ordered, h'.ordered, fun k hk m hm =>
    Nat.lt_of_lt_of_le (h.mem k hk).2 (h'.mem m hm).1⟩

theorem Span.alloc (σ : Store) (c : Cell) : σ.Span (σ.alloc c).2 [σ.size] := by
  have hlt : σ.size < (σ.alloc c).2.size := by
    rw [size_alloc]
    exact Nat.lt_succ_self _
  exact ⟨Nat.le_of_lt hlt, List.forall_mem_singleton.2 ⟨Nat.le_refl _, hlt⟩,
    List.pairwise_singleton _ _⟩

theorem Span.copy (σ : Store) (v : Value) (c : Cell) :
    σ.Span ((σ.alloc c).2.carryAll v (.object σ.size)) [σ.size] :=
  have h := Span.alloc σ c
  ⟨h.size_le, h.mem, h.ordered⟩

theorem Copied.grows (h : σ.Copied v w) (hστ : σ.Grows τ) : τ.Copied v w := by
  cases h with
  | plain _ h => exact .plain v h
  | object source copy => exact .object (hστ.get? source) (hστ.get? copy)

/-- A copy of a list or a table shows what that shows. -/
theorem Copied.view (h : σ.Copied v w) {d : Data} (hv : σ.view v = some d) (hd : d.IsNative) :
    σ.view w = some d := by
  cases h with
  | plain => exact hv
  | object source copy =>
    rw [view_iff_unfolds] at hv ⊢
    cases hv with
    | list cell items =>
      obtain rfl := Option.some.inj (source.symm.trans cell)
      exact .list copy items
    | table cell entries =>
      obtain rfl := Option.some.inj (source.symm.trans cell)
      exact .table copy entries
    | _ => cases hd

theorem IsCopyable.grows (h : σ.IsCopyable v) (hστ : σ.Grows τ) : τ.IsCopyable v := by
  intro l hl
  rcases h l hl with ⟨items, hc⟩ | ⟨entries, hc⟩
  · exact .inl ⟨items, hστ.get? hc⟩
  · exact .inr ⟨entries, hστ.get? hc⟩

/-- A file that shows as a tree of values that JSON has is no object, or a list or a table. -/
theorem isCopyable_of_view {d : Data} (hv : σ.view v = some d) (hd : d.IsNative) :
    σ.IsCopyable v := by
  rintro l rfl
  cases view_iff_unfolds.1 hv with
  | list cell _ => exact .inl ⟨_, cell⟩
  | table cell _ => exact .inr ⟨_, cell⟩
  | _ => cases hd

end Store

/-! ## New parts -/

/-- The objects that are made for a position, in order. -/
def Part.made (q : Part) : List Loc := q.fileId.loc?.toList ++ [q.range, q.label]

/-- The objects that are made for a diagnostic, in order. -/
def Anatomy.made (b : Anatomy) : List Loc :=
  b.parts.flatMap Part.made ++ [b.labelList, b.noteList, b.diagnostic]

/-- Whether a label is like another one, but in another file. -/
structure Part.Rebound (τ : Store) (fileId : Value) (p q : Part) : Prop where
  style : q.style = p.style
  bounds : q.bounds = p.bounds
  message : q.message = p.message
  copied : τ.Copied fileId q.fileId

/-- Whether a diagnostic was made of another one, with all labels in another file. -/
structure Anatomy.Rebound (σ : Store) (a : Anatomy) (fileId : Value) (τ : Store) (b : Anatomy) :
    Prop where
  grown : σ.Extends τ
  isIn : b.IsIn τ
  severity : b.severity = a.severity
  code : b.code = a.code
  message : b.message = a.message
  notes : b.notes = a.lines.map .text
  parts : List.Forall₂ (Part.Rebound τ fileId) a.parts b.parts
  made : σ.Span τ b.made

theorem Part.Rebound.grows {p q : Part} (h : p.Rebound σ fileId q) (hστ : σ.Grows τ) :
    p.Rebound τ fileId q :=
  ⟨h.style, h.bounds, h.message, h.copied.grows hστ⟩

/-! ## What the checks give -/

namespace Validation

theorem text_of_textual (h : v.IsTextual) : text σ v = .valid (v.asText?.getD "") := by
  obtain ⟨s, hs⟩ := Option.isSome_iff_exists.1 h
  simp [text, hs]

theorem textOrNone_code (code : Option String) :
    textOrNone σ ((code.map Value.text).getD .none) = .valid code := by
  cases code <;> rfl

/-- The fields of a diagnostic with labels that exist. -/
theorem diagnosticFields_of_lists {i j : Loc} {ls : List Loc} {notes : List Value}
    (hi : σ.get? i = some (.list (ls.map .object))) (hj : σ.get? j = some (.list notes))
    (hlabels : ∀ l ∈ ls, σ.IsLabel (.object l)) (hnotes : ∀ v ∈ notes, v.IsTextual) (s : Severity)
    (code : Option String) (m : String) (source : Source) :
    diagnosticFields source σ [("severity", .severity s),
      ("code", (code.map Value.text).getD .none), ("message", .text m), ("labels", .object i),
      ("notes", .object j)] =
      .valid ⟨s, code, m, ls.map .existing, notes.map fun v => v.asText?.getD ""⟩ := by
  have hseverity : severity σ (.severity s) = .valid s := by simp [severity]
  have hmessage : text σ (.text m) = .valid m := rfl
  have hlist : listOf source (label source) σ (.object i) = .valid (ls.map .existing) := by
    rw [listOf_of_list _ hi, Check.each_valid]
    rw [List.forall₂_map_left_iff, List.forall₂_map_right_iff, List.forall₂_same]
    intro l hl
    obtain ⟨f, hf⟩ := hlabels l hl
    simp [label, record, hf]
  have hlines : listOf source text σ (.object j) =
      .valid (notes.map fun v => v.asText?.getD "") := by
    rw [listOf_of_list _ hj, Check.each_valid]
    rw [List.forall₂_map_right_iff, List.forall₂_same]
    exact fun v hv => text_of_textual (hnotes v hv)
  have hlabelList : σ.IsListOf σ.IsLabel (.object i) := ⟨_, hi, List.forall_mem_map.2 hlabels⟩
  -- a list is not used up, so the notes are looked at in the same store as the labels
  have hspend : spendLabels source σ [("severity", .severity s),
      ("code", (code.map Value.text).getD .none), ("message", .text m), ("labels", .object i),
      ("notes", .object j)] = σ :=
    spend_of_isListOf hlabelList _
  refine diagnosticFields_of_valid rfl hseverity (optional_valid rfl (textOrNone_code code))
    (optional_valid rfl hmessage) (optional_valid rfl hlist) ?_
  rw [hspend]
  exact optional_valid rfl hlines

end Validation

/-! ## What is made -/

open Diagnostics.Action Store

namespace Store

/-- Labels that exist are taken as they are. -/
theorem buildAll_existing {α : Type} (make : Store → α → Value × Store) (σ : Store)
    (ls : List Loc) : σ.buildAll make (ls.map .existing) = (ls.map .object, σ) := by
  induction ls with
  | nil => rfl
  | cons l ls ih => simp only [List.map_cons, buildAll, Draft.build, ih]

end Store

namespace Record

section

variable {entries : List (String × Value)}

/-- The fields of a label that are valid make a new label after its range. -/
theorem perform_fields_of_valid {d : LabelDraft}
    (h : Validation.labelFields .values σ entries = .valid d) :
    (labelOfFields entries).perform σ = (.ok (newLabel σ d).1, (newLabel σ d).2) :=
  perform_build newLabel "Label" (fun σ => (Validation.labelFields .values σ entries).map .fresh)
    (d := .fresh d) (by rw [h]; rfl)

/-- With a range that exists a label is all that is new. -/
theorem perform_labelOfFields {r : RangeFields} {s : LabelStyle} {m : String}
    (hl : σ.get? l = some (.byteRange r)) (hstyle : entries.lookup "style" = some (.style s))
    (hfile : entries.lookup "file_id" = some fileId)
    (hrange : entries.lookup "range" = some (.object l))
    (hmessage : Validation.optional "message" "" (Validation.text σ) entries = .valid m) :
    (labelOfFields entries).perform σ =
      (.ok (.object σ.size), (σ.alloc (.label ⟨.style s, fileId, .object l, .text m⟩)).2) := by
  have hs : Validation.style σ (.style s) = .valid s := by simp [Validation.style]
  have isByteRange : σ.IsByteRange (.object l) := ⟨r, hl⟩
  obtain ⟨_, ⟨⟩, htaken⟩ := Validation.labelRange_of_isByteRange isByteRange .values
  exact perform_fields_of_valid
    (Validation.labelFields_of_valid hstyle hs hfile hrange htaken hmessage)

end

theorem perform_diagnosticOfFields {i j : Loc} {ls : List Loc} {notes : List Value}
    (hi : σ.get? i = some (.list (ls.map .object))) (hj : σ.get? j = some (.list notes))
    (hlabels : ∀ l ∈ ls, σ.IsLabel (.object l)) (hnotes : ∀ v ∈ notes, v.IsTextual) (s : Severity)
    (code : Option String) (m : String) :
    (diagnosticOfFields [("severity", .severity s), ("code", (code.map Value.text).getD .none),
      ("message", .text m), ("labels", .object i), ("notes", .object j)]).perform σ =
      (.ok (σ.newDiagnostic ⟨s, code, m, ls.map .existing, notes.map fun v => v.asText?.getD ""⟩).1,
        (σ.newDiagnostic ⟨s, code, m, ls.map .existing,
          notes.map fun v => v.asText?.getD ""⟩).2) := by
  have hvalid : (Validation.diagnosticFields .values σ [("severity", .severity s),
      ("code", (code.map Value.text).getD .none), ("message", .text m), ("labels", .object i),
      ("notes", .object j)]).map Draft.fresh = .valid (.fresh ⟨s, code, m, ls.map .existing,
        notes.map fun v => v.asText?.getD ""⟩) := by
    rw [Validation.diagnosticFields_of_lists hi hj hlabels hnotes]
    rfl
  exact perform_build newDiagnostic "Diagnostic"
    (fun σ => (Validation.diagnosticFields .values σ _).map .fresh) hvalid

end Record

namespace Builder

/-- A list or a table is copied. -/
theorem copy_copied (h : σ.IsCopyable fileId) :
    (copy fileId).Returns σ fun w τ =>
      σ.Extends τ ∧ τ.Copied fileId w ∧ σ.Span τ w.loc?.toList := by
  refine returns_bind_of_ok (perform_cell? σ fileId) ?_
  have copied : ∀ {l c}, fileId = .object l → σ.get? l = some c →
      (copyOf fileId c).Returns σ fun w τ =>
        σ.Extends τ ∧ τ.Copied fileId w ∧ σ.Span τ w.loc?.toList := by
    rintro l c rfl hl
    refine ⟨_, _, perform_copyOf σ (.object l) c, .copy σ _ c, ?_, .copy σ _ c⟩
    exact .object ((Grows.alloc σ c).get? hl) (get?_alloc_self σ c)
  rcases hloc : fileId.loc? with _ | l
  · have hcell : σ.cell? fileId = none := by
      cases fileId with
      | object => cases hloc
      | _ => rfl
    rw [hcell]
    exact ⟨fileId, σ, rfl, .refl σ, .plain _ hloc, by rw [hloc]; exact .nil (Nat.le_refl _)⟩
  · obtain rfl : fileId = .object l := by
      cases fileId with
      | object k => exact congrArg _ (Option.some.inj hloc)
      | _ => cases hloc
    rcases h l rfl with ⟨items, hl⟩ | ⟨entries, hl⟩
    · rw [show σ.cell? (.object l) = _ from hl]
      exact copied rfl hl
    · rw [show σ.cell? (.object l) = _ from hl]
      exact copied rfl hl

/-- A label is made with a copy of a range. -/
theorem labelWithFile_part {p : Part} (hp : p.IsIn σ) (w : Value) :
    (labelWithFile ⟨.style p.style, p.fileId, .object p.range, .text p.message⟩ w).Returns σ
      fun v τ => ∃ q : Part, v = .object q.label ∧ q.fileId = w ∧ q.style = p.style ∧
        q.bounds = p.bounds ∧ q.message = p.message ∧ σ.Extends τ ∧ q.IsIn τ ∧
        σ.Span τ [q.range, q.label] := by
  let c : Cell := .byteRange ⟨.int p.bounds.start, .int p.bounds.stop⟩
  let τ : Store := (σ.alloc c).2.carryAll (.object p.range) (.object σ.size)
  have hcopy : (copyRecord (.object p.range)).perform σ = (.ok (.object σ.size), τ) := by
    rw [copyRecord, perform_bind_of_ok _ (perform_cell? _ _),
      show σ.cell? (.object p.range) = some c from hp.range]
    exact perform_copyOf σ _ c
  have hτ : τ.get? σ.size = some c := get?_alloc_self σ c
  refine returns_bind_of_ok hcopy ?_
  refine ⟨_, _, Record.perform_labelOfFields hτ rfl rfl rfl (Validation.optional_valid rfl rfl),
    ⟨τ.size, σ.size, p.style, w, p.bounds, p.message⟩, rfl, rfl, rfl, rfl, rfl, ?_, ⟨?_, ?_⟩, ?_⟩
  · exact (Extends.copy σ _ c).trans (.alloc τ _)
  · exact get?_alloc_self τ _
  · exact (Grows.alloc τ _).get? hτ
  · exact (Span.copy σ _ c).append (.alloc τ _)

/-- What takes the place of a label is like it, with a copy of the file. -/
theorem rebindOne_part (n : Nat) (hfile : σ.IsCopyable fileId) {p : Part} (hp : p.IsIn σ) :
    (rebindOne (rebind (n + 1)) fileId (.object p.label)).Returns σ
      fun v τ => ∃ q : Part, v = .object q.label ∧ σ.Extends τ ∧ q.IsIn τ ∧ p.Rebound τ fileId q ∧
        σ.Span τ q.made := by
  refine returns_bind_of_ok (perform_cell? σ _) ?_
  rw [show σ.cell? (.object p.label) = _ from hp.label]
  simp only [isRebindable, Bool.not_true, Bool.false_eq_true, if_false]
  refine (copy_copied hfile).bind ?_
  rintro w τ ⟨hτ, hcopied, hspan⟩
  have hp' := hp.grows hτ.grows
  rw [rebind]
  refine returns_bind_of_ok (perform_cell? τ _) ?_
  rw [show τ.cell? (.object p.label) = _ from hp'.label]
  refine (labelWithFile_part hp' w).imp ?_
  rintro _ ρ ⟨q, rfl, rfl, hstyle, hbounds, hmessage, hρ, hq, hspan'⟩
  exact ⟨q, rfl, hτ.trans hρ, hq, ⟨hstyle, hbounds, hmessage, hcopied.grows hρ.grows⟩,
    hspan.append hspan'⟩

/-- Labels are rebound in order. -/
theorem rebindEach_parts (n : Nat) (hfile : σ.IsCopyable fileId) {source : Value}
    {items : List Value} (hsource : σ.cell? source = some (.list items)) {ps : List Part}
    (hps : ∀ p ∈ ps, p.IsIn σ) :
    (takeEach source (rebindOne (rebind (n + 1)) fileId)
        (ps.map fun p => .object p.label)).Returns σ
      fun ws τ => ∃ qs : List Part, ws = qs.map (fun q => .object q.label) ∧ σ.Extends τ ∧
        (∀ q ∈ qs, q.IsIn τ) ∧ List.Forall₂ (Part.Rebound τ fileId) ps qs ∧
        σ.Span τ (qs.flatMap Part.made) := by
  induction ps generalizing σ with
  | nil =>
    exact ⟨[], σ, rfl, [], rfl, .refl σ, List.forall_mem_nil _, .nil, .nil (Nat.le_refl _)⟩
  | cons p ps ih =>
    obtain ⟨hp, hps⟩ := List.forall_mem_cons.1 hps
    refine takeEach_cons_returns hsource (rebindOne_part n hfile hp) ?_
    rintro _ τ ⟨q, rfl, hτ, hq, hpq, hspan⟩
    refine (ih (hfile.grows hτ.grows) (hτ.grows.retains.list _ _ hsource)
      fun p hp => (hps p hp).grows hτ.grows).imp ?_
    rintro _ ρ ⟨qs, rfl, hρ, hqs, hparts, hmore⟩
    refine ⟨q :: qs, rfl, hτ.trans hρ, ?_, ?_, ?_⟩
    · exact List.forall_mem_cons.2 ⟨hq.grows hρ.grows, hqs⟩
    · exact .cons (hpq.grows hρ.grows) hparts
    · exact hspan.append hmore

/-- **Rebinding.** A diagnostic is made anew, with all labels in another file. -/
theorem withFile_rebound {a : Anatomy} (ha : a.IsIn σ) (hfile : σ.IsCopyable fileId) :
    (withFile (.object a.diagnostic) fileId).Returns σ
      fun v τ => ∃ b : Anatomy, v = .object b.diagnostic ∧ a.Rebound σ fileId τ b := by
  -- the diagnostic is an object, so there is depth enough for its labels
  obtain ⟨n, hn⟩ := Nat.exists_eq_succ_of_ne_zero (Nat.ne_of_gt (Nat.zero_lt_of_lt
    (lt_size_of_get? ha.diagnostic)))
  refine returns_bind_of_ok (x := σ) (τ := σ) rfl ?_
  rw [rebind]
  refine returns_bind_of_ok (perform_cell? σ _) ?_
  rw [show σ.cell? (.object a.diagnostic) = _ from ha.diagnostic]
  refine returns_bind_of_ok (Exchange.perform_elements_list ha.labelList) ?_
  rw [hn]
  have hsource : σ.cell? (.object a.labelList) = some _ := ha.labelList
  refine (rebindEach_parts n hfile hsource ha.parts).bind ?_
  rintro _ τ ⟨qs, rfl, hτ, hqs, hparts, hspan⟩
  -- both lists are made, and then made once more for the diagnostic
  let labels : List Value := qs.map fun q => .object q.label
  let τ₁ := (τ.alloc (.list labels)).2
  let τ₂ := (τ₁.alloc (.list a.notes)).2
  have hτ₁ : τ.Extends τ₁ := .alloc τ _
  have hτ₂ : τ₁.Extends τ₂ := .alloc τ₁ _
  refine returns_bind_of_ok (perform_new τ _) ?_
  refine returns_bind_of_ok (Exchange.perform_takeAll_list
    ((hτ.trans hτ₁).grows.get? ha.noteList)) ?_
  refine returns_bind_of_ok (perform_new τ₁ _) ?_
  have hi : τ₂.get? τ.size = some (.list ((qs.map Part.label).map .object)) := by
    rw [List.map_map]
    exact hτ₂.grows.get? (get?_alloc_self τ _)
  have hlabels : ∀ l ∈ qs.map Part.label, τ₂.IsLabel (.object l) := by
    intro l hl
    obtain ⟨q, hq, rfl⟩ := List.mem_map.1 hl
    exact ⟨_, ((hqs q hq).grows (hτ₁.trans hτ₂).grows).label⟩
  refine ⟨_, _, Record.perform_diagnosticOfFields hi (get?_alloc_self τ₁ _) hlabels ha.notes
    a.severity a.code a.message, ?_⟩
  rw [newDiagnostic, buildAll_existing]
  let τ₃ := (τ₂.alloc (.list ((qs.map Part.label).map .object))).2
  let τ₄ := (τ₃.alloc (.list (a.lines.map .text))).2
  have hτ₃ : τ₂.Extends τ₃ := .alloc τ₂ _
  have hτ₄ : τ₃.Extends τ₄ := .alloc τ₃ _
  have hτ₅ := Extends.alloc τ₄ (.diagnostic ⟨.severity a.severity,
    (a.code.map Value.text).getD .none, .text a.message, .object τ₂.size, .object τ₃.size⟩)
  have hnew := hτ₁.trans (hτ₂.trans (hτ₃.trans (hτ₄.trans hτ₅)))
  refine ⟨⟨τ₄.size, τ₂.size, τ₃.size, a.severity, a.code, a.message, qs, a.lines.map .text⟩, rfl,
    ?_, ⟨?_, ?_, ?_, ?_, ?_⟩, rfl, rfl, rfl, rfl, ?_, ?_⟩
  · exact hτ.trans hnew
  · exact get?_alloc_self τ₄ _
  · have hlist := (hτ₄.trans hτ₅).grows.get? (get?_alloc_self τ₂ _)
    rw [List.map_map] at hlist
    exact hlist
  · exact hτ₅.grows.get? (get?_alloc_self τ₃ _)
  · exact fun q hq => (hqs q hq).grows hnew.grows
  · exact List.forall_mem_map.2 fun _ _ => rfl
  · exact hparts.imp fun _ _ hpq => hpq.grows hnew.grows
  · have hlists : τ.Span τ₂ [] := .nil (hτ₁.trans hτ₂).grows.size_le
    exact hspan.append (hlists.append ((Span.alloc τ₂ _).append ((Span.alloc τ₃ _).append
      (.alloc τ₄ _))))

end Builder

end Diagnostics
