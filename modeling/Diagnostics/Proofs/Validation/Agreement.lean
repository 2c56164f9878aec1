import Diagnostics.Proofs.Exchange.Twins
import Diagnostics.Proofs.Json.Similar
import Diagnostics.Proofs.Validation.Misfits

/-!
# Checks of the same JSON agree

Two values that are made of the same JSON, each in a store of its own, come to the same when they
are checked, whatever their sources are (`diagnostic_agrees`): both are valid and draft the same,
both have the same issues at the same places but for what the sources word differently, or the same
failure ends both checks. So do values that are made of similar JSON, which differs in the order of
keys and in keys that no check looks for (`diagnostic_agrees_of_similar`).

`Check.Agree` says so of two checks, given how what they find is related. Checks that are put
together of parts agree when the parts do (`Agree.both`, `Agree.each`), so agreement is shown of
single values first and then field by field and item by item.
-/

namespace Diagnostics

/-! ## Agreement -/

/-- Kinds of issues that are the same but for the sources that they are worded for. -/
inductive IssueKind.Agree (s t : Source) : IssueKind → IssueKind → Prop where
  | same (kind : IssueKind) : Agree s t kind kind
  | notARecord (record : String) : Agree s t (.notARecord s record) (.notARecord t record)
  | notAList : Agree s t (.notAList s) (.notAList t)

/-- The same place, and kinds that agree. -/
def Issue.Agree (s t : Source) (i j : Issue) : Prop := i.path = j.path ∧ i.kind.Agree s t j.kind

theorem IssueKind.Agree.code_eq {s t : Source} {k m : IssueKind} (h : k.Agree s t m) :
    k.code = m.code := by
  cases h <;> rfl

/-- Worded for one source, kinds that agree are the same. -/
theorem IssueKind.Agree.eq {s : Source} {k m : IssueKind} (h : k.Agree s s m) : k = m := by
  cases h <;> rfl

theorem Issue.Agree.eq {s : Source} {i j : Issue} (h : i.Agree s s j) : i = j := by
  obtain ⟨hpath, hkind⟩ := h
  cases i
  cases j
  cases hpath
  cases hkind.eq
  rfl

/-- Two checks, from two sources, that come to the same; what they find is related. -/
inductive Check.Agree {α β : Type} (s t : Source) (R : α → β → Prop) :
    Check α → Check β → Prop where
  | valid {a b} (related : R a b) : Agree s t R (.valid a) (.valid b)
  | invalid {is js} (issues : List.Forall₂ (Issue.Agree s t) is js) :
    Agree s t R (.invalid is) (.invalid js)
  | aborted (failure : Failure) : Agree s t R (.aborted failure) (.aborted failure)

namespace Check.Agree

variable {α β γ δ : Type} {s t : Source} {R : α → β → Prop} {S : γ → δ → Prop}

theorem refuse {k m : IssueKind} (h : k.Agree s t m) :
    Check.Agree s t R (.refuse k) (.refuse m) :=
  .invalid (.cons ⟨rfl, h⟩ .nil)

/-- The same check agrees with itself where what is found is related to itself. -/
theorem refl {R : α → α → Prop} (h : ∀ a, R a a) (c : Check α) : Check.Agree s t R c c := by
  cases c with
  | valid a => exact .valid (h a)
  | invalid is => exact .invalid (List.forall₂_same.2 fun i _ => ⟨rfl, .same i.kind⟩)
  | aborted e => exact .aborted e

theorem imp {S : α → β → Prop} {c : Check α} {d : Check β} (h : Check.Agree s t R c d)
    (hRS : ∀ a b, R a b → S a b) : Check.Agree s t S c d := by
  cases h with
  | valid related => exact .valid (hRS _ _ related)
  | invalid issues => exact .invalid issues
  | aborted e => exact .aborted e

theorem map {c : Check α} {d : Check β} {f : α → γ} {g : β → δ} (h : Check.Agree s t R c d)
    (hfg : ∀ a b, R a b → S (f a) (g b)) : Check.Agree s t S (c.map f) (d.map g) := by
  cases h with
  | valid related => exact .valid (hfg _ _ related)
  | invalid issues => exact .invalid issues
  | aborted e => exact .aborted e

theorem under {c : Check α} {d : Check β} (h : Check.Agree s t R c d) (step : PathStep) :
    Check.Agree s t R (c.under step) (d.under step) := by
  cases h with
  | valid related => exact .valid related
  | invalid issues =>
    refine .invalid (List.forall₂_map_left_iff.2 (List.forall₂_map_right_iff.2 ?_))
    refine issues.imp fun i j hij => ⟨?_, hij.2⟩
    rw [Issue.under_path, Issue.under_path, hij.1]
  | aborted e => exact .aborted e

/-- Two parts agree together when each of them agrees. -/
theorem both {c : Check α} {d : Check β} {c' : Check γ} {d' : Check δ}
    (h : Check.Agree s t R c d) (h' : Check.Agree s t S c' d') :
    Check.Agree s t (fun p q => R p.1 q.1 ∧ S p.2 q.2) (c.both c') (d.both d') := by
  cases h with
  | valid related =>
    cases h' with
    | valid related' => exact .valid ⟨related, related'⟩
    | invalid issues => exact .invalid issues
    | aborted e => exact .aborted e
  | invalid issues =>
    cases h' with
    | valid => exact .invalid issues
    | invalid more => exact .invalid (List.rel_append issues more)
    | aborted e => exact .aborted e
  | aborted e => exact .aborted e

/-- Items agree together when each of them agrees. -/
theorem each {f : α → Check γ} {g : β → Check δ} {as : List α} {bs : List β}
    (h : List.Forall₂ (fun a b => Check.Agree s t S (f a) (g b)) as bs) (i : Nat) :
    Check.Agree s t (List.Forall₂ S) (Check.each f i as) (Check.each g i bs) := by
  induction h generalizing i with
  | nil => exact .valid .nil
  | cons hab _ ih =>
    refine ((hab.under (.index i)).both (ih (i + 1))).map ?_
    rintro p q ⟨hfirst, hrest⟩
    exact .cons hfirst hrest

end Check.Agree

namespace Validation

variable {σ τ : Store} {v w : Value} {i j : Json} (s t : Source)

/-! ## Single values -/

theorem offset_agrees (hv : σ.Shows v j) (hw : τ.Shows w j) :
    (offset v).Agree s t (· = ·) (offset w) := by
  cases hv.twins hw with
  | plain _ => exact .refl (fun _ => rfl) _
  | nan => exact .refuse (.same _)
  | list _ _ => exact .refuse (.same _)
  | table _ _ => exact .refuse (.same _)

/-- Of twins that differ, neither is a text or has bytes of a text. -/
theorem text_agrees (hv : σ.Shows v j) (hw : τ.Shows w j) :
    (text σ v).Agree s t (· = ·) (text τ w) := by
  cases hv.twins hw with
  | plain h =>
    have hcheck : text σ v = text τ v := by simp only [text, Store.cell?_of_loc? _ h]
    rw [hcheck]
    exact .refl (fun _ => rfl) _
  | nan => exact .refuse (.same _)
  | list hl hk =>
    simp only [text, Value.asText?, Store.cell?, hl, hk]
    exact .refuse (.same _)
  | table hl hk =>
    simp only [text, Value.asText?, Store.cell?, hl, hk]
    exact .refuse (.same _)

theorem textOrNone_agrees (hv : σ.Shows v j) (hw : τ.Shows w j) :
    (textOrNone σ v).Agree s t (· = ·) (textOrNone τ w) := by
  have htext := (text_agrees s t hv hw).map (S := (· = ·)) (f := some) (g := some)
    fun _ _ h => congrArg some h
  cases hv.twins hw with
  | @plain v h =>
    cases v with
    | none => exact .valid rfl
    | _ => exact htext
  | nan => exact htext
  | list hl hk => exact htext
  | table hl hk => exact htext

/-- Twins are the same word, if any. -/
theorem word?_eq_of_twins (h : Store.Twins σ τ v w) : word? σ v = word? τ w := by
  cases h with
  | plain h => simp only [word?, Store.cell?_of_loc? _ h]
  | nan => rfl
  | list hl hk => simp only [word?, Value.asText?, Store.cell?, hl, hk]
  | table hl hk => simp only [word?, Value.asText?, Store.cell?, hl, hk]

theorem severity_agrees (hv : σ.Shows v j) (hw : τ.Shows w j) :
    (severity σ v).Agree s t (· = ·) (severity τ w) := by
  have hcheck : severity σ v = severity τ w := by
    simp only [severity, word?_eq_of_twins (hv.twins hw)]
    generalize (word? τ w).bind Severity.ofWord? = level?
    cases hv.twins hw <;> cases level? <;> rfl
  rw [hcheck]
  exact .refl (fun _ => rfl) _

theorem style_agrees (hv : σ.Shows v j) (hw : τ.Shows w j) :
    (style σ v).Agree s t (· = ·) (style τ w) := by
  have hcheck : style σ v = style τ w := by
    simp only [style, word?_eq_of_twins (hv.twins hw)]
    generalize (word? τ w).bind LabelStyle.ofWord? = style?
    cases hv.twins hw <;> cases style? <;> rfl
  rw [hcheck]
  exact .refl (fun _ => rfl) _

/-! ## Shapes -/

/-- Which keys of a range are looked for. -/
def rangeShape : Json.Shape := .record ["start", "end"] fun _ => .leaf

/-- Which keys of a label are looked for; its file is taken as it is. -/
def labelShape : Json.Shape :=
  .record ["style", "file_id", "range", "message"] fun name =>
    if name = "range" then rangeShape else .leaf

/-- Which keys of a diagnostic are looked for. -/
def diagnosticShape : Json.Shape :=
  .record ["severity", "code", "message", "labels", "notes"] fun name =>
    if name = "labels" then .items labelShape else .leaf

/-! ## Fields, records and lists -/

section Parts

variable {α β : Type} {R : α → β → Prop} {f : Value → Check α} {g : Value → Check β}
  {shape : Json.Shape} {known : List String} {field : String → Json.Shape}
  {vs ws : List (String × Value)} {es es' : List (String × Json)}

/-- What agrees on the same JSON agrees on JSON that is the same. -/
theorem leaf_agrees (hfg : ∀ v w j, σ.Shows v j → τ.Shows w j → (f v).Agree s t R (g w))
    (v w : Value) (i j : Json) (h : Json.Similar .leaf i j) (hv : σ.Shows v i)
    (hw : τ.Shows w j) : (f v).Agree s t R (g w) := by
  obtain rfl : i = j := h
  exact hfg v w i hv hw

theorem required_agrees (name : String)
    (hfg : ∀ v w i j, Json.Similar shape i j → σ.Shows v i → τ.Shows w j → (f v).Agree s t R (g w))
    (hvs : List.Forall₂ (fun v e => v.1 = e.1 ∧ σ.Shows v.2 e.2) vs es)
    (hws : List.Forall₂ (fun w e => w.1 = e.1 ∧ τ.Shows w.2 e.2) ws es')
    (hsimilar : Option.Rel (Json.Similar shape) (es.lookup name) (es'.lookup name)) :
    (required name f vs).Agree s t R (required name g ws) := by
  generalize hleft : es.lookup name = left at hsimilar
  generalize hright : es'.lookup name = right at hsimilar
  cases hsimilar with
  | none =>
    rw [required, required, Store.lookup_eq_none_of_shows hvs hleft,
      Store.lookup_eq_none_of_shows hws hright]
    exact .invalid (.cons ⟨rfl, .same _⟩ .nil)
  | @some i j h =>
    obtain ⟨v, hv, hvi⟩ := Store.exists_lookup_of_shows hvs name hleft
    obtain ⟨w, hw, hwj⟩ := Store.exists_lookup_of_shows hws name hright
    rw [required, required, hv, hw]
    exact (hfg v w i j h hvi hwj).under _

theorem optional_agrees (name : String) {a : α} {b : β} (hab : R a b)
    (hfg : ∀ v w i j, Json.Similar shape i j → σ.Shows v i → τ.Shows w j → (f v).Agree s t R (g w))
    (hvs : List.Forall₂ (fun v e => v.1 = e.1 ∧ σ.Shows v.2 e.2) vs es)
    (hws : List.Forall₂ (fun w e => w.1 = e.1 ∧ τ.Shows w.2 e.2) ws es')
    (hsimilar : Option.Rel (Json.Similar shape) (es.lookup name) (es'.lookup name)) :
    (optional name a f vs).Agree s t R (optional name b g ws) := by
  generalize hleft : es.lookup name = left at hsimilar
  generalize hright : es'.lookup name = right at hsimilar
  cases hsimilar with
  | none =>
    rw [optional_default (Store.lookup_eq_none_of_shows hvs hleft),
      optional_default (Store.lookup_eq_none_of_shows hws hright)]
    exact .valid hab
  | @some i j h =>
    obtain ⟨v, hv, hvi⟩ := Store.exists_lookup_of_shows hvs name hleft
    obtain ⟨w, hw, hwj⟩ := Store.exists_lookup_of_shows hws name hright
    rw [optional, optional, hv, hw]
    exact (hfg v w i j h hvi hwj).under _

/-- What is made of similar JSON is a new record, or none, both times. -/
theorem record_agrees {name : String} {isRecord : Cell → Bool}
    {f : List (String × Value) → Check α} {g : List (String × Value) → Check β}
    (hlist : ∀ vs, isRecord (.list vs) = false) (htable : ∀ vs, isRecord (.table vs) = false)
    (hfg : ∀ vs ws (es es' : List (String × Json)),
      List.Forall₂ (fun v e => v.1 = e.1 ∧ σ.Shows v.2 e.2) vs es →
        List.Forall₂ (fun w e => w.1 = e.1 ∧ τ.Shows w.2 e.2) ws es' →
          (∀ key ∈ known,
            Option.Rel (Json.Similar (field key)) (es.lookup key) (es'.lookup key)) →
              (f vs).Agree s t R (g ws))
    (h : Json.Similar (.record known field) i j) (hv : σ.Shows v i) (hw : τ.Shows w j) :
    (record s name isRecord f σ v).Agree s t
      (fun d e => ∃ a b, d = .fresh a ∧ e = .fresh b ∧ R a b) (record t name isRecord g τ w) := by
  obtain ⟨es, es', rfl, rfl, hsimilar⟩ | ⟨hno, rfl⟩ := h.record_cases
  · obtain ⟨l, vs, rfl, hl, hvs⟩ := hv.exists_table
    obtain ⟨k, ws, rfl, hk, hws⟩ := hw.exists_table
    rw [record_of_table f hl (htable vs), record_of_table g hk (htable ws)]
    exact (hfg vs ws es es' hvs hws hsimilar).map fun a b hab => ⟨a, b, rfl, rfl, hab⟩
  · rw [record_of_shows f hlist hv hno, record_of_shows g hlist hw hno]
    exact .refuse (.notARecord name)

theorem listOf_agrees {check : Store → Value → Check α} {check' : Store → Value → Check β}
    (hchecks : ∀ v w i j, Json.Similar shape i j → σ.Shows v i → τ.Shows w j →
      (check σ v).Agree s t R (check' τ w))
    (h : Json.Similar (.items shape) i j) (hv : σ.Shows v i) (hw : τ.Shows w j) :
    (listOf s check σ v).Agree s t (List.Forall₂ R) (listOf t check' τ w) := by
  obtain ⟨is, js, rfl, rfl, hsimilar⟩ | ⟨hno, rfl⟩ := h.items_cases
  · obtain ⟨l, vs, rfl, hl, hvs⟩ := hv.exists_list
    obtain ⟨k, ws, rfl, hk, hws⟩ := hw.exists_list
    rw [listOf_of_list _ hl, listOf_of_list _ hk]
    have hright : List.Forall₂ (fun w i => ∃ j, τ.Shows w j ∧ Json.Similar shape i j) ws is :=
      forall₂_exists_iff.2 ⟨js, hws, hsimilar⟩
    have hitems := forall₂_exists_iff.2 ⟨is, hvs, hright⟩
    refine .each (hitems.imp ?_) 0
    rintro v w ⟨i, hvi, j, hwj, hij⟩
    exact hchecks v w i j hij hvi hwj
  · rw [listOf_of_shows s _ hv hno, listOf_of_shows t _ hw hno]
    exact .refuse .notAList

end Parts

/-! ## Byte ranges -/

theorem contain_agrees {α β : Type} {R : α → β → Prop} {c : Check α} {d : Check β}
    (h : c.Agree s t R d) : (contain c).Agree s t R (contain d) := by
  cases h with
  | valid related => exact .valid related
  | invalid issues => exact .invalid issues
  | aborted e =>
    cases e with
    | integerTooLong => exact .refuse (.same _)
    | _ => exact .aborted _

/-- Drafts of the same new range. -/
def SameRanges (d e : Draft ByteRange) : Prop := ∃ r, d = .fresh r ∧ e = .fresh r

/-- Items make the same range, or are no pair, both times. -/
theorem pair_agrees {vs ws : List Value}
    (h : List.Forall₂ (fun v w => ∃ j, σ.Shows v j ∧ τ.Shows w j) vs ws) :
    (pair vs).Agree s t SameRanges (pair ws) := by
  rcases h with _ | ⟨⟨i, hv, hw⟩, _ | ⟨⟨j, hv', hw'⟩, _ | ⟨_, h⟩⟩⟩
  · exact .aborted _
  · exact .aborted _
  · have hstart := (offset_agrees s t hv hw).under (.field "start")
    have hstop := (offset_agrees s t hv' hw').under (.field "end")
    refine (hstart.both hstop).map ?_
    rintro ⟨a, b⟩ ⟨_, _⟩ ⟨rfl, rfl⟩
    exact ⟨⟨a, b⟩, rfl, rfl⟩
  · simp only [pair, List.length_cons, h.length_eq]
    exact .aborted _

theorem byteRange_agrees (h : Json.Similar rangeShape i j) (hv : σ.Shows v i) (hw : τ.Shows w j) :
    (byteRange s σ v).Agree s t SameRanges (byteRange t τ w) := by
  refine (record_agrees s t (fun _ => rfl) (fun _ => rfl) (R := (· = ·)) ?_ h hv hw).imp ?_
  · intro vs ws es es' hvs hws hsimilar
    have hstart := required_agrees s t "start" (leaf_agrees s t fun _ _ _ => offset_agrees s t)
      hvs hws (hsimilar "start" (by simp))
    have hstop := required_agrees s t "end" (leaf_agrees s t fun _ _ _ => offset_agrees s t)
      hvs hws (hsimilar "end" (by simp))
    refine (hstart.both hstop).map ?_
    rintro ⟨a, b⟩ ⟨_, _⟩ ⟨rfl, rfl⟩
    rfl
  · rintro d e ⟨a, _, rfl, rfl, rfl⟩
    exact ⟨a, rfl, rfl⟩

theorem labelRange_agrees (h : Json.Similar rangeShape i j) (hv : σ.Shows v i)
    (hw : τ.Shows w j) : (labelRange s σ v).Agree s t SameRanges (labelRange t τ w) := by
  have hbyteRange := byteRange_agrees s t h hv hw
  obtain ⟨es, es', rfl, rfl, -⟩ | ⟨hno, rfl⟩ := h.record_cases
  · obtain ⟨l, vs, rfl, hl, -⟩ := hv.exists_table
    obtain ⟨k, ws, rfl, hk, -⟩ := hw.exists_table
    simp only [labelRange, Store.cell?, hl, hk]
    exact hbyteRange
  · cases i with
    | array js =>
      obtain ⟨l, vs, rfl, hl, hvs⟩ := hv.exists_list
      obtain ⟨k, ws, rfl, hk, hws⟩ := hw.exists_list
      simp only [labelRange, asByteRange, Store.cell?, hl, hk]
      exact contain_agrees s t (pair_agrees s t (forall₂_exists_iff.2 ⟨js, hvs, hws⟩))
    | object es => exact absurd rfl (hno es)
    | _ =>
      simp only [labelRange, hv.cell?_eq_none (by simp) (by simp),
        hw.cell?_eq_none (by simp) (by simp)]
      exact hbyteRange

/-! ## Diagnostics -/

/-- Drafts, each in a store of its own, of labels that show the same but for marks. -/
def SameLabels (σ τ : Store) (d e : Draft LabelDraft) : Prop :=
  ∃ a b : LabelContent, a.IsDraft σ d ∧ b.IsDraft τ e ∧ a.data.unmarked = b.data.unmarked

/-- Drafts, each in a store of its own, of diagnostics that show the same but for marks. -/
def SameDiagnostics (σ τ : Store) (d e : Draft DiagnosticDraft) : Prop :=
  ∃ a b : DiagnosticContent, a.IsDraft σ d ∧ b.IsDraft τ e ∧ a.data.unmarked = b.data.unmarked

theorem label_agrees (h : Json.Similar labelShape i j) (hv : σ.Shows v i) (hw : τ.Shows w j) :
    (label s σ v).Agree s t (SameLabels σ τ) (label t τ w) := by
  -- the file of a label is any value, of which is kept what it was made of
  let R (d e : LabelDraft) : Prop := SameLabels σ τ (.fresh d) (.fresh e)
  refine (record_agrees s t (fun _ => rfl) (fun _ => rfl) (R := R) ?_ h hv hw).imp ?_
  · intro vs ws es es' hvs hws hsimilar
    have hstyle := required_agrees s t "style" (leaf_agrees s t fun _ _ _ => style_agrees s t)
      hvs hws (hsimilar "style" (by simp))
    have hfile := required_agrees s t "file_id" (f := Check.valid) (g := Check.valid)
      (R := fun v w => ∃ j, σ.Shows v j ∧ τ.Shows w j)
      (leaf_agrees s t fun _ _ j hv hw => .valid ⟨j, hv, hw⟩) hvs hws
      (hsimilar "file_id" (by simp))
    have hrange := required_agrees s t "range" (fun _ _ _ _ => labelRange_agrees s t) hvs hws
      (hsimilar "range" (by simp))
    have hmessage := optional_agrees s t "message" (a := "") rfl
      (leaf_agrees s t fun _ _ _ => text_agrees s t) hvs hws (hsimilar "message" (by simp))
    refine (hstyle.both (hfile.both (hrange.both hmessage))).map ?_
    rintro ⟨style, v, d, message⟩ ⟨_, w, e, _⟩
      ⟨rfl, ⟨j, ⟨x, hx, hjx⟩, y, hy, hjy⟩, ⟨r, rfl, rfl⟩, rfl⟩
    refine ⟨⟨style, x, r, message⟩, ⟨style, y, r, message⟩, ⟨v, rfl, hx⟩, ⟨w, rfl, hy⟩, ?_⟩
    simp only [LabelContent.data, Data.unmarked, hjx.unmarked_eq j hjy]
  · rintro d e ⟨a, b, rfl, rfl, h⟩
    exact h

/-- Drafts of the same labels are drafts of labels that show the same. -/
theorem exists_contents {ds es : List (Draft LabelDraft)}
    (h : List.Forall₂ (SameLabels σ τ) ds es) :
    ∃ as bs : List LabelContent, List.Forall₂ (LabelContent.IsDraft σ) as ds ∧
      List.Forall₂ (LabelContent.IsDraft τ) bs es ∧
        as.map (fun a => a.data.unmarked) = bs.map fun b => b.data.unmarked := by
  induction h with
  | nil => exact ⟨[], [], .nil, .nil, rfl⟩
  | cons h _ ih =>
    obtain ⟨a, b, ha, hb, hab⟩ := h
    obtain ⟨as, bs, has, hbs, habs⟩ := ih
    refine ⟨a :: as, b :: bs, .cons ha has, .cons hb hbs, ?_⟩
    rw [List.map_cons, List.map_cons, hab, habs]

theorem spendLabels_of_shows {vs : List (String × Value)} {es : List (String × Json)}
    (h : List.Forall₂ (fun v e => v.1 = e.1 ∧ σ.Shows v.2 e.2) vs es) :
    spendLabels s σ vs = σ := by
  rcases hlookup : es.lookup "labels" with _ | j
  · rw [spendLabels, Store.lookup_eq_none_of_shows h hlookup]
  · obtain ⟨v, hv, hshows⟩ := Store.exists_lookup_of_shows h "labels" hlookup
    rw [spendLabels, hv]
    exact spend_of_shows _ hshows

/-- The checks of two values that are made of similar JSON agree. -/
theorem diagnostic_agrees_of_similar (h : Json.Similar diagnosticShape i j) (hv : σ.Shows v i)
    (hw : τ.Shows w j) :
    (diagnostic s σ v).Agree s t (SameDiagnostics σ τ) (diagnostic t τ w) := by
  let R (d e : DiagnosticDraft) : Prop := SameDiagnostics σ τ (.fresh d) (.fresh e)
  refine (record_agrees s t (fun _ => rfl) (fun _ => rfl) (R := R) ?_ h hv hw).imp ?_
  · intro vs ws es es' hvs hws hsimilar
    have hseverity := required_agrees s t "severity"
      (leaf_agrees s t fun _ _ _ => severity_agrees s t) hvs hws (hsimilar "severity" (by simp))
    have hcode := optional_agrees s t "code" (a := none) rfl
      (leaf_agrees s t fun _ _ _ => textOrNone_agrees s t) hvs hws (hsimilar "code" (by simp))
    have hmessage := optional_agrees s t "message" (a := "") rfl
      (leaf_agrees s t fun _ _ _ => text_agrees s t) hvs hws (hsimilar "message" (by simp))
    have hlabels := optional_agrees s t "labels" .nil
      (fun _ _ _ _ => listOf_agrees s t fun _ _ _ _ => label_agrees s t) hvs hws
      (hsimilar "labels" (by simp))
    have hnotes := optional_agrees s t "notes" .nil
      (leaf_agrees s t fun _ _ _ => listOf_agrees s t
        (leaf_agrees s t fun _ _ _ => text_agrees s t) (.refl _ _)) hvs hws
      (hsimilar "notes" (by simp))
    rw [diagnosticFields, diagnosticFields, spendLabels_of_shows s hvs, spendLabels_of_shows t hws]
    refine (hseverity.both (hcode.both (hmessage.both (hlabels.both hnotes)))).map ?_
    rintro ⟨level, code, message, ds, notes⟩ ⟨_, _, _, es, notes'⟩ ⟨rfl, rfl, rfl, hds, hnotes⟩
    obtain rfl : notes = notes' := by rwa [List.forall₂_eq_eq_eq] at hnotes
    obtain ⟨as, bs, has, hbs, hsame⟩ := exists_contents hds
    refine ⟨⟨level, code, message, as, notes⟩, ⟨level, code, message, bs, notes⟩,
      ⟨ds, rfl, has⟩, ⟨es, rfl, hbs⟩, ?_⟩
    simp only [DiagnosticContent.data, Data.unmarked, Data.unmarkedItems_eq_map, List.map_map,
      Function.comp_def, hsame]
  · rintro d e ⟨a, b, rfl, rfl, h⟩
    exact h

/-- **Agreement.** The checks of two values that are made of the same JSON agree. -/
theorem diagnostic_agrees (hv : σ.Shows v j) (hw : τ.Shows w j) :
    (diagnostic s σ v).Agree s t (SameDiagnostics σ τ) (diagnostic t τ w) :=
  diagnostic_agrees_of_similar s t (.refl _ _) hv hw

end Validation

end Diagnostics
