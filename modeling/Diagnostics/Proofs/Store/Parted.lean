import Diagnostics.Proofs.Validation.Drafts

/-!
# Whose lists are whose

A diagnostic holds its labels and its notes in lists, and lists are shared by whoever holds them. In
a listed store (`Store.IsListed`) every diagnostic does have lists, and no list is for labels here
and for notes there. That two diagnostics have no list in common (`Store.HasSoleOwners`) is a matter of
how they came about. What is done to a store passes no list on (`Store.Passes`) when every diagnostic
keeps the lists that it has and all others get new ones, each to one of them; then lists that had a
sole owner have one afterwards (`Passes.hasSoleOwners`).

There are two ways in which this comes about: no diagnostic is made and none gets other lists
(`parts_of_kept`), or one is made with two new lists (`parts_newLists`).
-/

namespace Diagnostics

theorem Cell.exists_list {c : Cell} (hc : c.typeName = "list") : ∃ vs, c = .list vs := by
  cases c with
  | list vs => exact ⟨vs, rfl⟩
  | _ => simp [typeName] at hc

theorem Cell.exists_diagnostic {c : Cell} (hc : c.typeName = "Diagnostic") :
    ∃ d, c = .diagnostic d := by
  cases c with
  | diagnostic d => exact ⟨d, rfl⟩
  | _ => simp [typeName] at hc

namespace Store

variable {σ τ ρ : Store} {p q : Prop} {k l : Loc} {v : Value} {c c' : Cell}

/-! ## Lists and their owners -/

/-- Whether a value stands for a list. -/
def IsList (σ : Store) (v : Value) : Prop := ∃ vs, σ.cell? v = some (.list vs)

/-- Whether the diagnostic at a place has the object at another one for its labels or its notes. -/
def HasList (σ : Store) (k l : Loc) : Prop :=
  ∃ d, σ.get? k = some (.diagnostic d) ∧ (d.labels = .object l ∨ d.notes = .object l)

/-- Whether every list that is for labels or notes is so in one diagnostic only. -/
def HasSoleOwners (σ : Store) : Prop := ∀ k m l, σ.HasList k l → σ.HasList m l → k = m

/-- Whether all diagnostics have lists, of which none is for labels and for notes at once, and all
labels have ranges. -/
structure IsListed (σ : Store) : Prop where
  labels : ∀ k d, σ.get? k = some (.diagnostic d) → σ.IsList d.labels
  notes : ∀ k d, σ.get? k = some (.diagnostic d) → σ.IsList d.notes
  apart : ∀ k m d e, σ.get? k = some (.diagnostic d) → σ.get? m = some (.diagnostic e) →
    d.labels ≠ e.notes
  ranges : ∀ k f, σ.get? k = some (.label f) → σ.IsByteRange f.range

/-- Without diagnostics there are no lists of theirs. -/
theorem isListed_empty : Store.empty.IsListed := by
  have none_there : ∀ k c, Store.empty.get? k ≠ some c := fun _ _ hk => by cases hk
  exact ⟨fun k _ hk => absurd hk (none_there k _), fun k _ hk => absurd hk (none_there k _),
    fun k _ _ _ hk => absurd hk (none_there k _), fun k _ hk => absurd hk (none_there k _)⟩

/-- What a diagnostic has for its labels or notes is a list. -/
theorem IsListed.exists_list (h : σ.IsListed) (hl : σ.HasList k l) :
    ∃ vs, σ.get? l = some (.list vs) := by
  obtain ⟨d, hk, hd | hd⟩ := hl
  · obtain ⟨vs, hvs⟩ := h.labels k d hk
    rw [hd] at hvs
    exact ⟨vs, hvs⟩
  · obtain ⟨vs, hvs⟩ := h.notes k d hk
    rw [hd] at hvs
    exact ⟨vs, hvs⟩

/-- No list lies at the next location or beyond it. -/
theorem IsListed.lt_size (h : σ.IsListed) (hl : σ.HasList k l) : l < σ.size := by
  obtain ⟨vs, hvs⟩ := h.exists_list hl
  exact lt_size_of_get? hvs

/-! ## Passing no list on -/

/-- Whether a store came from another in such a way that no list that was there came into the
possession of a diagnostic that did not have it, and each new one of at most one diagnostic. -/
structure Passes (σ τ : Store) : Prop where
  typed : ∀ l c, σ.get? l = some c → ∃ c', τ.get? l = some c' ∧ c'.typeName = c.typeName
  kept : ∀ k d, σ.get? k = some (.diagnostic d) →
    ∃ e, τ.get? k = some (.diagnostic e) ∧ e.labels = d.labels ∧ e.notes = d.notes
  fresh : ∀ k l, l < σ.size → τ.HasList k l → σ.HasList k l
  sole : ∀ k m l, σ.size ≤ l → τ.HasList k l → τ.HasList m l → k = m

theorem IsListed.passes_refl (h : σ.IsListed) : σ.Passes σ where
  typed _ c hl := ⟨c, hl, rfl⟩
  kept _ d hk := ⟨d, hk, rfl, rfl⟩
  fresh _ _ _ hl := hl
  sole _ _ _ hle hk _ := absurd (h.lt_size hk) (Nat.not_lt.2 hle)

theorem Passes.lt_size (h : σ.Passes τ) (hl : l < σ.size) : l < τ.size := by
  obtain ⟨c', hc', -⟩ := h.typed l _ (List.getElem?_eq_getElem hl)
  exact lt_size_of_get? hc'

/-- Passing no list on in two steps is passing none on. -/
theorem Passes.trans (h : σ.Passes τ) (h' : τ.Passes ρ) : σ.Passes ρ where
  typed l c hl := by
    obtain ⟨c₁, hc₁, htype⟩ := h.typed l c hl
    obtain ⟨c₂, hc₂, htype'⟩ := h'.typed l c₁ hc₁
    exact ⟨c₂, hc₂, htype'.trans htype⟩
  kept k d hk := by
    obtain ⟨d₁, hd₁, hlabels, hnotes⟩ := h.kept k d hk
    obtain ⟨d₂, hd₂, hlabels', hnotes'⟩ := h'.kept k d₁ hd₁
    exact ⟨d₂, hd₂, hlabels'.trans hlabels, hnotes'.trans hnotes⟩
  fresh k l hl hk := h.fresh k l hl (h'.fresh k l (h.lt_size hl) hk)
  sole k m l hle hk hm := by
    rcases Nat.lt_or_ge l τ.size with hlt | hge
    · exact h.sole k m l hle (h'.fresh k l hlt hk) (h'.fresh m l hlt hm)
    · exact h'.sole k m l hge hk hm

/-- **Owners.** Where no list is passed on, lists go on to have sole owners. -/
theorem Passes.hasSoleOwners (h : σ.Passes τ) (hσ : σ.HasSoleOwners) : τ.HasSoleOwners := by
  intro k m l hk hm
  rcases Nat.lt_or_ge l σ.size with hlt | hge
  · exact hσ k m l (h.fresh k l hlt hk) (h.fresh m l hlt hm)
  · exact h.sole k m l hge hk hm

theorem isByteRange_of_typed
    (typed : ∀ l c, σ.get? l = some c → ∃ c', τ.get? l = some c' ∧ c'.typeName = c.typeName)
    (hv : σ.IsByteRange v) : τ.IsByteRange v := by
  obtain ⟨r, hr⟩ := hv
  obtain ⟨l, rfl, hl⟩ := exists_of_cell? hr
  obtain ⟨c', hc', htype⟩ := typed l _ hl
  obtain ⟨r', rfl⟩ := Cell.exists_byteRange htype
  exact ⟨r', hc'⟩

theorem isList_of_typed
    (typed : ∀ l c, σ.get? l = some c → ∃ c', τ.get? l = some c' ∧ c'.typeName = c.typeName)
    (hv : σ.IsList v) : τ.IsList v := by
  obtain ⟨vs, hvs⟩ := hv
  obtain ⟨l, rfl, hl⟩ := exists_of_cell? hvs
  obtain ⟨c', hc', htype⟩ := typed l _ hl
  obtain ⟨ws, rfl⟩ := Cell.exists_list htype
  exact ⟨ws, hc'⟩

/-! ## What is done to listed stores -/

/-- Whether what was done to a store leaves it listed, and under some condition passes no list on. -/
def Parts (p : Prop) (σ τ : Store) : Prop := σ.IsListed → τ.IsListed ∧ (p → σ.Passes τ)

theorem Parts.refl (p : Prop) (σ : Store) : σ.Parts p σ := fun h => ⟨h, fun _ => h.passes_refl⟩

theorem Parts.trans (h : Parts p σ τ) (h' : Parts p τ ρ) : Parts p σ ρ := by
  intro hσ
  obtain ⟨hτ, hpasses⟩ := h hσ
  obtain ⟨hρ, hpasses'⟩ := h' hτ
  exact ⟨hρ, fun hp => (hpasses hp).trans (hpasses' hp)⟩

theorem Parts.imp (h : Parts p σ τ) (hqp : q → p) : Parts q σ τ :=
  fun hσ => ⟨(h hσ).1, fun hq => (h hσ).2 (hqp hq)⟩

/-- Where no diagnostic is made and none gets other lists, no list is passed on. -/
theorem parts_of_kept
    (typed : ∀ l c, σ.get? l = some c → ∃ c', τ.get? l = some c' ∧ c'.typeName = c.typeName)
    (lists : ∀ k e, τ.get? k = some (.diagnostic e) →
      ∃ d, σ.get? k = some (.diagnostic d) ∧ e.labels = d.labels ∧ e.notes = d.notes)
    (ranges : ∀ k f, τ.get? k = some (.label f) → σ.IsListed → σ.IsByteRange f.range) :
    Parts p σ τ := by
  have had : ∀ k l, τ.HasList k l → σ.HasList k l := by
    rintro k l ⟨e, he, hlists⟩
    obtain ⟨d, hd, hlabels, hnotes⟩ := lists k e he
    exact ⟨d, hd, by rwa [← hlabels, ← hnotes]⟩
  intro h
  refine ⟨⟨fun k e he => ?_, fun k e he => ?_, fun k m d e hd he => ?_, fun k f hf => ?_⟩,
    fun _ => ⟨typed, fun k d hd => ?_, fun k l _ hk => had k l hk, fun k m l hle hk _ => ?_⟩⟩
  · obtain ⟨d, hd, hlabels, -⟩ := lists k e he
    exact hlabels ▸ isList_of_typed typed (h.labels k d hd)
  · obtain ⟨d, hd, -, hnotes⟩ := lists k e he
    exact hnotes ▸ isList_of_typed typed (h.notes k d hd)
  · obtain ⟨d', hd', hlabels, -⟩ := lists k d hd
    obtain ⟨e', he', -, hnotes⟩ := lists m e he
    rw [hlabels, hnotes]
    exact h.apart k m d' e' hd' he'
  · exact isByteRange_of_typed typed (ranges k f hf h)
  · obtain ⟨c', hc', htype⟩ := typed k _ hd
    obtain ⟨e, rfl⟩ := Cell.exists_diagnostic htype
    obtain ⟨d', hd', hlists⟩ := lists k e hc'
    obtain rfl := Cell.diagnostic.inj (Option.some.inj (hd.symm.trans hd'))
    exact ⟨e, hc', hlists⟩
  · exact absurd (h.lt_size (had k l hk)) (Nat.not_lt.2 hle)

/-- Where no record changes, no list is passed on. -/
theorem Calm.parts (h : σ.Calm τ) : Parts p σ τ := by
  refine parts_of_kept (fun l c hl => ?_)
    (fun k e he => ⟨e, h.get?_of_record he rfl, rfl, rfl⟩)
    fun k f hf hσ => hσ.ranges k f (h.get?_of_record hf rfl)
  have hcalm := h l
  rw [hl] at hcalm
  generalize τ.get? l = after at hcalm
  cases hcalm with
  | same => exact ⟨c, rfl, rfl⟩
  | used _ ws => exact ⟨.iterator ws, rfl, rfl⟩

theorem get?_of_alloc (h : (σ.alloc c).2.get? k = some c') : c' = c ∨ σ.get? k = some c' := by
  by_cases hk : k = σ.size
  · rw [hk, get?_alloc_self] at h
    exact .inl (Option.some.inj h).symm
  · rw [get?_alloc_of_ne σ c hk] at h
    exact .inr h

/-- A new object that is no diagnostic, and that has a range if it is a label. -/
theorem parts_alloc (hc : c.typeName ≠ "Diagnostic")
    (hrange : σ.IsListed → ∀ f, c = .label f → σ.IsByteRange f.range) :
    Parts p σ (σ.alloc c).2 := by
  refine parts_of_kept (fun l c' hl => ⟨c', get?_alloc_of_get? c hl, rfl⟩) (fun k e he => ?_)
    fun k f hf hσ => ?_
  · rcases get?_of_alloc he with rfl | he
    · exact absurd rfl hc
    · exact ⟨e, he, rfl, rfl⟩
  · rcases get?_of_alloc hf with rfl | hf
    · exact hrange hσ f rfl
    · exact hσ.ranges k f hf

/-- An object that holds something else of its type, where diagnostics keep their lists and labels
their ranges. -/
theorem parts_update (hl : σ.get? l = some c) (htype : c'.typeName = c.typeName)
    (hlists : ∀ e, c' = .diagnostic e →
      ∃ d, c = .diagnostic d ∧ e.labels = d.labels ∧ e.notes = d.notes)
    (hrange : ∀ f, c' = .label f → ∃ g, c = .label g ∧ f.range = g.range) :
    Parts p σ (σ.update l c') := by
  refine parts_of_kept (fun k x hk => ?_) (fun k e he => ?_) fun k f hf hσ => ?_
  · rw [get?_update hl]
    split
    · next heq =>
      rw [heq, hl] at hk
      exact ⟨c', rfl, htype.trans (congrArg _ (Option.some.inj hk))⟩
    · exact ⟨x, hk, rfl⟩
  · rw [get?_update hl] at he
    split at he
    · next heq =>
      obtain ⟨d, rfl, hd⟩ := hlists e (Option.some.inj he)
      exact ⟨d, heq ▸ hl, hd⟩
    · exact ⟨e, he, rfl, rfl⟩
  · rw [get?_update hl] at hf
    split at hf
    · obtain ⟨g, rfl, hg⟩ := hrange f (Option.some.inj hf)
      exact hg ▸ hσ.ranges l g hl
    · exact hσ.ranges k f hf

/-- More items in a list, or more bytes where there are bytes. -/
theorem parts_update_plain (hl : σ.get? l = some c) (htype : c'.typeName = c.typeName)
    (hplain : c'.fields? = none) : Parts p σ (σ.update l c') := by
  refine parts_update hl htype ?_ ?_
  · rintro e rfl
    cases hplain
  · rintro f rfl
    cases hplain

/-! ## New diagnostics -/

/-- The store in which a diagnostic with two lists has been made. -/
def withDiagnostic (σ : Store) (severity code message : Value) (a b : Loc) : Store :=
  (σ.alloc (.diagnostic ⟨severity, code, message, .object a, .object b⟩)).2

/-- Whether two lists were made on the way from one store to another, and no record changed. -/
structure MakesLists (σ τ : Store) (a b : Loc) : Prop where
  calm : σ.Calm τ
  ne : a ≠ b
  labels : σ.size ≤ a ∧ τ.IsList (.object a)
  notes : σ.size ≤ b ∧ τ.IsList (.object b)

theorem IsList.ne_object (hv : σ.IsList v) (hle : σ.size ≤ l) : v ≠ .object l := by
  rintro rfl
  obtain ⟨vs, hvs⟩ := hv
  exact Nat.not_lt.2 hle (lt_size_of_get? hvs)

namespace MakesLists

variable {a b m : Loc} {severity code message : Value} {d e : DiagnosticFields}

/-- All diagnostics but the new one were there before. -/
theorem cases_of_get? (h : σ.MakesLists τ a b)
    (hk : (τ.withDiagnostic severity code message a b).get? k = some (.diagnostic d)) :
    k = τ.size ∧ d.labels = .object a ∧ d.notes = .object b ∨
      σ.get? k = some (.diagnostic d) := by
  rw [withDiagnostic] at hk
  by_cases hnew : k = τ.size
  · rw [hnew, get?_alloc_self] at hk
    cases hk
    exact .inl ⟨hnew, rfl, rfl⟩
  · rw [get?_alloc_of_ne τ _ hnew] at hk
    exact .inr (h.calm.get?_of_record hk rfl)

/-- The new lists are those of the new diagnostic. -/
theorem cases_of_hasList (h : σ.MakesLists τ a b)
    (hk : (τ.withDiagnostic severity code message a b).HasList k l) :
    k = τ.size ∧ σ.size ≤ l ∨ σ.HasList k l := by
  obtain ⟨d, hd, hlists⟩ := hk
  rcases h.cases_of_get? hd with ⟨rfl, hlabels, hnotes⟩ | hd
  · rw [hlabels, hnotes] at hlists
    rcases hlists with ⟨⟨⟩⟩ | ⟨⟨⟩⟩
    · exact .inl ⟨rfl, h.labels.1⟩
    · exact .inl ⟨rfl, h.notes.1⟩
  · exact .inr ⟨d, hd, hlists⟩

/-- A diagnostic that is made with two new lists leaves the store listed. -/
theorem isListed (h : σ.MakesLists τ a b) (hσ : σ.IsListed) :
    (τ.withDiagnostic severity code message a b).IsListed := by
  have hτ : τ.IsListed := (h.calm.parts (p := True) hσ).1
  have hretains : τ.Retains (τ.withDiagnostic severity code message a b) :=
    (Grows.alloc τ _).retains
  have isList : ∀ {v}, τ.IsList v → (τ.withDiagnostic severity code message a b).IsList v := by
    rintro v ⟨vs, hvs⟩
    exact ⟨vs, hretains.list v vs hvs⟩
  have old : ∀ {k d}, σ.get? k = some (.diagnostic d) → τ.get? k = some (.diagnostic d) :=
    fun hd => h.calm.get?_eq hd nofun
  constructor
  · intro k d hk
    rcases h.cases_of_get? hk with ⟨-, hlabels, -⟩ | hk
    · exact hlabels ▸ isList h.labels.2
    · exact isList (hτ.labels k d (old hk))
  · intro k d hk
    rcases h.cases_of_get? hk with ⟨-, -, hnotes⟩ | hk
    · exact hnotes ▸ isList h.notes.2
    · exact isList (hτ.notes k d (old hk))
  · intro k m d e hk hm
    rcases h.cases_of_get? hk with ⟨-, hlabels, -⟩ | hk
    · rcases h.cases_of_get? hm with ⟨-, -, hnotes⟩ | hm
      · rw [hlabels, hnotes]
        exact fun heq => h.ne (Value.object.inj heq)
      · exact hlabels ▸ ((hσ.notes m e hm).ne_object h.labels.1).symm
    · rcases h.cases_of_get? hm with ⟨-, -, hnotes⟩ | hm
      · exact hnotes ▸ (hσ.labels k d hk).ne_object h.notes.1
      · exact hσ.apart k m d e hk hm
  · intro k f hf
    rcases get?_of_alloc hf with hf | hf
    · cases hf
    · exact hretains.range _ (hτ.ranges k f hf)

/-- A diagnostic that is made with two new lists has taken none from another one. -/
theorem passes (h : σ.MakesLists τ a b) (hσ : σ.IsListed) :
    σ.Passes (τ.withDiagnostic severity code message a b) := by
  have hpasses : σ.Passes τ := (h.calm.parts (p := True) hσ).2 trivial
  have hgrows : τ.Grows (τ.withDiagnostic severity code message a b) := .alloc τ _
  constructor
  · intro l c hl
    obtain ⟨c', hc', htype⟩ := hpasses.typed l c hl
    exact ⟨c', hgrows.get? hc', htype⟩
  · intro k d hk
    exact ⟨d, hgrows.get? (h.calm.get?_eq hk nofun), rfl, rfl⟩
  · intro k l hl hk
    rcases h.cases_of_hasList hk with ⟨-, hle⟩ | hk
    · exact absurd hl (Nat.not_lt.2 hle)
    · exact hk
  · intro k m l hle hk hm
    have new : ∀ {k}, (τ.withDiagnostic severity code message a b).HasList k l → k = τ.size := by
      intro k hk
      rcases h.cases_of_hasList hk with ⟨hk, -⟩ | hk
      · exact hk
      · exact absurd (hσ.lt_size hk) (Nat.not_lt.2 hle)
    exact (new hk).trans (new hm).symm

end MakesLists

/-- A diagnostic with two new lists. -/
theorem parts_newLists (σ : Store) (vs ws : List Value) (severity code message : Value) :
    let τ := (σ.alloc (.list vs)).2
    Parts p σ ((τ.alloc (.list ws)).2.withDiagnostic severity code message σ.size τ.size) := by
  intro τ hσ
  have hlists : σ.MakesLists (τ.alloc (.list ws)).2 σ.size τ.size := by
    have hlt : σ.size < τ.size := lt_size_of_get? (get?_alloc_self σ _)
    have hvs : (τ.alloc (.list ws)).2.IsList (.object σ.size) :=
      ⟨vs, get?_alloc_of_get? _ (get?_alloc_self σ _)⟩
    exact ⟨(Calm.alloc σ rfl).trans (.alloc τ rfl), Nat.ne_of_lt hlt, ⟨Nat.le_refl _, hvs⟩,
      Nat.le_of_lt hlt, ws, get?_alloc_self τ _⟩
  exact ⟨hlists.isListed hσ, fun _ => hlists.passes hσ⟩

end Store

end Diagnostics
