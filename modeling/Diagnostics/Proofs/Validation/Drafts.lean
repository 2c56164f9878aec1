import Diagnostics.Proofs.Store.WellFormed
import Diagnostics.Validation.Record

/-!
# Drafts refer to records that there are

Where a record is asked for, data may hold one that exists, and the draft then refers to it. Checks
make sure of its type: whatever is found valid, from whatever data, refers to byte ranges where
ranges belong and to labels where labels belong (`diagnostic_ensures`).
-/

namespace Diagnostics

variable {α β γ : Type} {σ τ : Store}

/-! ## What checks make sure of -/

/-- Whether all that a check finds valid has a property. -/
def Check.Ensures (P : α → Prop) (c : Check α) : Prop := ∀ a, c = .valid a → P a

namespace Check

variable {P Q : α → Prop} {R : β → Prop} {c : Check α} {d : Check β}

/-- What is found valid is ensured. -/
theorem ensures_valid {a : α} (h : P a) : (valid a).Ensures P := by
  rintro _ ⟨⟩
  exact h

theorem ensures_invalid (is : List Issue) : (invalid is).Ensures P := nofun

theorem ensures_aborted (e : Failure) : (aborted e).Ensures P := nofun

theorem ensures_refuse (kind : IssueKind) : (refuse kind).Ensures P := nofun

/-- What is ensured may be weakened. -/
theorem Ensures.imp (h : c.Ensures P) (hPQ : ∀ a, P a → Q a) : c.Ensures Q :=
  fun a ha => hPQ a (h a ha)

/-- What is made of what was found ensures what it is made to. -/
theorem Ensures.map {f : α → β} (h : c.Ensures P) (hf : ∀ a, P a → R (f a)) :
    (c.map f).Ensures R := by
  cases c with
  | valid a => exact ensures_valid (hf a (h a rfl))
  | invalid is => exact ensures_invalid is
  | aborted e => exact ensures_aborted e

/-- The step to a field in front of issues does not touch what is found. -/
theorem Ensures.under (h : c.Ensures P) (step : PathStep) : (c.under step).Ensures P := by
  cases c with
  | valid a => exact h
  | invalid is => exact ensures_invalid _
  | aborted e => exact h

/-- Two checks together ensure what both of them do. -/
theorem Ensures.both (h : c.Ensures P) (h' : d.Ensures R) :
    (c.both d).Ensures fun p => P p.1 ∧ R p.2 := by
  cases c with
  | valid a =>
    cases d with
    | valid b => exact ensures_valid ⟨h a rfl, h' b rfl⟩
    | invalid is => exact ensures_invalid is
    | aborted e => exact ensures_aborted e
  | invalid is =>
    cases d with
    | valid b => exact ensures_invalid is
    | invalid js => exact ensures_invalid _
    | aborted e => exact ensures_aborted e
  | aborted e => exact ensures_aborted e

/-- A check of each item ensures of all what it does of one. -/
theorem ensures_each {f : α → Check β} {as : List α} (h : ∀ a ∈ as, (f a).Ensures R) (i : Nat) :
    (each f i as).Ensures fun bs => ∀ b ∈ bs, R b := by
  induction as generalizing i with
  | nil => exact ensures_valid (List.forall_mem_nil R)
  | cons a as ih =>
    have hfirst := (h a List.mem_cons_self).under (.index i)
    refine (hfirst.both (ih (fun x hx => h x (List.mem_cons_of_mem a hx)) (i + 1))).map ?_
    rintro p ⟨hp, hps⟩
    exact List.forall_mem_cons.2 ⟨hp, hps⟩

/-- What makes no difference to failures makes none to what is made sure of. -/
theorem Ensures.contain (h : c.Ensures P) : (Validation.contain c).Ensures P := by
  rw [Validation.contain.eq_def]
  split
  · exact ensures_refuse _
  · exact h

end Check

/-! ## What drafts refer to -/

/-- Whether a draft refers to a record of some kind, or to what a new one may hold. -/
def Draft.Refers (E : Value → Prop) (F : α → Prop) : Draft α → Prop
  | existing l => E (.object l)
  | fresh a => F a

/-- Whether the draft of a label refers to a byte range that there is, if to any. -/
def LabelDraft.Refers (σ : Store) (d : LabelDraft) : Prop :=
  d.range.Refers σ.IsByteRange fun _ => True

/-- Whether the draft of a diagnostic refers to labels that there are, if to any. -/
def DiagnosticDraft.Refers (σ : Store) (d : DiagnosticDraft) : Prop :=
  ∀ l ∈ d.labels, l.Refers σ.IsLabel (LabelDraft.Refers σ)

/-- What a draft refers to may be described more loosely. -/
theorem Draft.Refers.imp {E E' : Value → Prop} {F F' : α → Prop} {d : Draft α}
    (h : d.Refers E F) (hE : ∀ v, E v → E' v) (hF : ∀ a, F a → F' a) : d.Refers E' F' := by
  cases d with
  | existing l => exact hE _ h
  | fresh a => exact hF a h

/-- Drafts of labels can be taken to a store with the ranges and labels of the first. -/
theorem LabelDraft.Refers.mono (hrange : ∀ v, σ.IsByteRange v → τ.IsByteRange v) {d : LabelDraft}
    (h : d.Refers σ) : d.Refers τ :=
  Draft.Refers.imp h hrange fun _ h => h

/-- A draft refers to the same records in any store in which these are still there. -/
theorem DiagnosticDraft.Refers.mono (hrange : ∀ v, σ.IsByteRange v → τ.IsByteRange v)
    (hlabel : ∀ v, σ.IsLabel v → τ.IsLabel v) {d : DiagnosticDraft} (h : d.Refers σ) :
    d.Refers τ :=
  fun l hl => (h l hl).imp hlabel fun _ => LabelDraft.Refers.mono hrange

namespace Store

/-- What is a byte range where no record has changed was one before. -/
theorem Calm.isByteRange (h : σ.Calm τ) {v : Value} (hv : τ.IsByteRange v) : σ.IsByteRange v := by
  obtain ⟨r, hr⟩ := hv
  obtain ⟨l, rfl, hl⟩ := exists_of_cell? hr
  exact ⟨r, h.get?_of_record hl rfl⟩

/-- A calm change makes no labels. -/
theorem Calm.isLabel (h : σ.Calm τ) {v : Value} (hv : τ.IsLabel v) : σ.IsLabel v := by
  obtain ⟨f, hf⟩ := hv
  obtain ⟨l, rfl, hl⟩ := exists_of_cell? hf
  exact ⟨f, h.get?_of_record hl rfl⟩

end Store

/-! ## Valid drafts -/

namespace Validation

open Check

variable (source : Source) (σ : Store) (v : Value) {name : String} {check : Value → Check α}
  {P : α → Prop}

/-- A required field ensures what the check of its value does. -/
theorem required_ensures (h : ∀ v, (check v).Ensures P) (name : String)
    (entries : List (String × Value)) : (required name check entries).Ensures P := by
  rw [required]
  split
  · exact (h _).under _
  · exact ensures_invalid _

/-- An optional field ensures what the check of its value does, if its default has that as well. -/
theorem optional_ensures {default : α} (h : ∀ v, (check v).Ensures P) (hdefault : P default)
    (name : String) (entries : List (String × Value)) :
    (optional name default check entries).Ensures P := by
  rw [optional]
  split
  · exact (h _).under _
  · exact ensures_valid hdefault

/-- A record that exists is of its kind, and a new one has fields that were checked. -/
theorem record_ensures {isRecord : Cell → Bool} {fields : List (String × Value) → Check α}
    {E : Value → Prop} (hexisting : ∀ l c, σ.get? l = some c → isRecord c → E (.object l))
    (hfields : ∀ entries, (fields entries).Ensures P) :
    (record source name isRecord fields σ v).Ensures (Draft.Refers E P) := by
  rw [record.eq_def]
  split
  · next l c hl =>
    split
    · next hc => exact ensures_valid (hexisting l c hl hc)
    · split
      · exact (hfields _).map fun _ h => h
      · exact ensures_refuse _
  · exact ensures_refuse _

/-- New bounds refer to nothing. -/
theorem bounds_ensures (start stop : Value) :
    (bounds start stop).Ensures (Draft.Refers σ.IsByteRange fun _ => True) := by
  have any : ∀ c : Check Nat, c.Ensures fun _ => True := fun _ _ _ => trivial
  exact (Ensures.both ((any _).under _) ((any _).under _)).map fun _ _ => trivial

/-- What is read as a byte range is one that exists, or is new. -/
theorem byteRange_ensures :
    (byteRange source σ v).Ensures (Draft.Refers σ.IsByteRange fun _ => True) := by
  refine record_ensures source σ v ?_ fun _ _ _ => trivial
  intro l c hl hc
  cases c with
  | byteRange r => exact ⟨r, hl⟩
  | _ => cases hc

/-- What describes a byte range is one that exists, or makes a new one. -/
theorem asByteRange_ensures :
    (asByteRange σ v).Ensures (Draft.Refers σ.IsByteRange fun _ => True) := by
  have pair_ensures : ∀ vs, (pair vs).Ensures (Draft.Refers σ.IsByteRange fun _ => True) := by
    intro vs
    rw [pair.eq_def]
    split
    · exact bounds_ensures σ _ _
    · exact ensures_aborted _
  rw [asByteRange.eq_def]
  split
  · next l r hl => exact ensures_valid ⟨r, hl⟩
  · split
    · exact bounds_ensures σ _ _
    · exact ensures_aborted _
  · split
    · exact ensures_aborted _
    · split
      · exact ensures_aborted _
      · exact bounds_ensures σ _ _
  · exact pair_ensures _
  · exact pair_ensures _
  · exact pair_ensures _
  · exact ensures_aborted _

/-- The range of a label is one that exists, or is new. -/
theorem labelRange_ensures :
    (labelRange source σ v).Ensures (Draft.Refers σ.IsByteRange fun _ => True) := by
  rw [labelRange.eq_def]
  split
  · exact (asByteRange_ensures σ v).contain
  · exact (asByteRange_ensures σ v).contain
  · exact (asByteRange_ensures σ v).contain
  · exact (asByteRange_ensures σ v).contain
  · exact byteRange_ensures source σ v

/-- The fields of a label refer to a byte range that exists, if to any. -/
theorem labelFields_ensures (entries : List (String × Value)) :
    (labelFields source σ entries).Ensures (LabelDraft.Refers σ) := by
  have any : ∀ {δ : Type} (c : Check δ), c.Ensures fun _ => True := fun _ _ _ => trivial
  have hrange := required_ensures (labelRange_ensures source σ) "range" entries
  exact ((any _).both ((any _).both (hrange.both (any _)))).map fun p h => h.2.2.1

/-- A label is one that exists, or has fields that were checked. -/
theorem label_ensures :
    (label source σ v).Ensures (Draft.Refers σ.IsLabel (LabelDraft.Refers σ)) := by
  refine record_ensures source σ v ?_ (labelFields_ensures source σ)
  intro l c hl hc
  cases c with
  | label f => exact ⟨f, hl⟩
  | _ => cases hc

/-- What can be read as a list is read from a store whose records stay the same. -/
theorem calm_of_listElements? {vs : List Value} (h : listElements? σ v = some (vs, τ)) :
    σ.Calm τ := by
  rw [listElements?] at h
  split at h
  · cases h
  · cases h
  · exact .of_elements? h
  · cases h

/-- The items of a list are looked at in a store that may have more tuples, but no more records. -/
theorem listOf_ensures {check : Store → Value → Check α} {P : Store → α → Prop}
    (h : ∀ σ v, (check σ v).Ensures (P σ)) (hP : ∀ σ τ a, σ.Calm τ → P τ a → P σ a) :
    (listOf source check σ v).Ensures fun as => ∀ a ∈ as, P σ a := by
  rw [listOf]
  split
  · next items τ helements =>
    have hcalm := calm_of_listElements? σ v helements
    refine (ensures_each (fun w _ => h τ w) 0).imp fun as has a ha => ?_
    exact hP σ τ a hcalm (has a ha)
  · exact ensures_refuse _

/-- Labels are checked in one store, so they refer to records of that store. -/
theorem labels_ensures (entries : List (String × Value)) :
    (labels source σ entries).Ensures
      fun ds => ∀ d ∈ ds, d.Refers σ.IsLabel (LabelDraft.Refers σ) := by
  refine optional_ensures (fun v => ?_) (List.forall_mem_nil _) "labels" entries
  refine listOf_ensures source σ v (label_ensures source) fun σ τ d hcalm hd => ?_
  exact hd.imp (fun _ => hcalm.isLabel) fun _ => LabelDraft.Refers.mono fun _ => hcalm.isByteRange

/-- The fields of a diagnostic refer to labels that exist, or to new ones. -/
theorem diagnosticFields_ensures (entries : List (String × Value)) :
    (diagnosticFields source σ entries).Ensures (DiagnosticDraft.Refers σ) := by
  have any : ∀ {δ : Type} (c : Check δ), c.Ensures fun _ => True := fun _ _ _ => trivial
  have hlabels := labels_ensures source σ entries
  exact ((any _).both ((any _).both ((any _).both (hlabels.both (any _))))).map
    fun p h => h.2.2.2.1

/-- **Diagnostics.** Whatever passes for a diagnostic refers only to labels and ranges. -/
theorem diagnostic_ensures :
    (diagnostic source σ v).Ensures (Draft.Refers (fun _ => True) (DiagnosticDraft.Refers σ)) :=
  record_ensures source σ v (fun _ _ _ _ => trivial) (diagnosticFields_ensures source σ)

end Validation

end Diagnostics
