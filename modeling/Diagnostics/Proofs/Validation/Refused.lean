import Diagnostics.Proofs.Builder.OneByOne
import Diagnostics.Proofs.Store.Literal
import Diagnostics.Proofs.Validation.Accepted

/-!
# What is refused as a byte range

A value that does not describe a range has none of the forms that do, and the failure says in what
way (`Store.Mismatch`). For a range of integers or the bounds of a part the explanation shows the
value as a literal, which cannot be written if an integer in it has too many digits or if it takes too
many calls (`Store.Hinders`). These are the only failures besides (`toByteRange_refused`).
-/

namespace Diagnostics

variable {σ : Store} {v : Value}

open Diagnostics.Action Store

namespace Store

/-- Whether a value is a range of integers or the bounds of a part. -/
def IsInterval (σ : Store) (v : Value) : Prop :=
  (∃ start stop step, σ.cell? v = some (.range start stop step)) ∨
    ∃ start stop step, σ.cell? v = some (.slice start stop step)

/-- Whether a value is a collection that can hold a pair, and what it holds. -/
inductive Holds (σ : Store) (v : Value) : List Value → Prop
  | list {items : List Value} (cell : σ.cell? v = some (.list items)) : Holds σ v items
  | tuple {items : List Value} (cell : σ.cell? v = some (.tuple items)) : Holds σ v items
  | buffer {bs : List UInt8} (cell : σ.cell? v = some (.buffer bs)) : Holds σ v (byteElements bs)

/-- The literal form of a value. -/
def IsLiteral (σ : Store) (v : Value) (s : String) : Prop := σ.literalText v = .ok s

/-- In which way an interval describes no range. -/
inductive Misshapen (σ : Store) (v : Value) : (String → Failure) → Prop
  | range {start stop step : Int} (cell : σ.cell? v = some (.range start stop step))
    (uneven : step ≠ 1) : Misshapen σ v .unevenRange
  | slice {start stop step : Value} (cell : σ.cell? v = some (.slice start stop step))
    (uneven : ¬ (step = .none ∨ σ.EqualsOne step)) : Misshapen σ v .unevenRange
  | openSlice {start step : Value} (cell : σ.cell? v = some (.slice start .none step))
    (even : step = .none ∨ σ.EqualsOne step) : Misshapen σ v .openRange

/-- In which way a value describes no range. -/
inductive Mismatch (σ : Store) (v : Value) : Failure → Prop
  | interval {cause : String → Failure} {s : String} (misshapen : σ.Misshapen v cause)
    (literal : σ.IsLiteral v s) : Mismatch σ v (cause s)
  | notAPair {items : List Value} (holds : σ.Holds v items) (other : items.length ≠ 2) :
    Mismatch σ v (.notAPair items.length)
  | notARange (interval : ¬ σ.IsInterval v) (sequence : ∀ items, ¬ σ.Holds v items)
    (record : ¬ σ.IsByteRange v) : Mismatch σ v (.notARange (σ.typeName v))

theorem Misshapen.isInterval {cause : String → Failure} (h : σ.Misshapen v cause) :
    σ.IsInterval v := by
  cases h with
  | range cell => exact .inl ⟨_, _, _, cell⟩
  | slice cell => exact .inr ⟨_, _, _, cell⟩
  | openSlice cell => exact .inr ⟨_, _, _, cell⟩

/-- A value of an accepted form mismatches in no way. -/
theorem Misshapen.not_spans {cause : String → Failure} (h : σ.Misshapen v cause)
    (start stop : Value) : ¬ σ.Spans v start stop := by
  intro hspans
  cases h with
  | range cell uneven => cases hspans <;> simp_all
  | slice cell uneven => cases hspans <;> simp_all
  | openSlice cell even => cases hspans <;> simp_all

end Store

namespace Validation

/-- An explanation shows the value, unless something is in the way of that. -/
theorem explain_cases (σ : Store) (v : Value) (cause : String → Failure) :
    (∃ s, σ.IsLiteral v s ∧ (∀ e, ¬ σ.Hinders v e) ∧ explain σ v cause = cause s) ∨
      ∃ e, σ.Hinders v e ∧ explain σ v cause = e := by
  have hends := σ.literalText_endsBy v
  rw [explain]
  generalize htext : σ.literalText v = text at hends
  cases hends with
  | result clear s => exact .inl ⟨s, htext, clear, rfl⟩
  | failure reason => exact .inr ⟨_, reason, rfl⟩

theorem asByteRange_of_misshapen {cause : String → Failure} (h : σ.Misshapen v cause) :
    asByteRange σ v = .aborted (explain σ v cause) := by
  cases h with
  | range cell uneven => simp only [asByteRange, cell, if_neg uneven]
  | slice cell uneven =>
    have hstep := refusesStep_iff.2 uneven
    simp only [asByteRange, cell, hstep, if_true]
  | openSlice cell even =>
    have hstep := mt refusesStep_iff.1 (not_not_intro even)
    simp only [asByteRange, cell, if_neg hstep, if_true]

theorem asByteRange_of_holds {items : List Value} (h : σ.Holds v items) :
    asByteRange σ v = pair items := by
  cases h with
  | list cell => simp only [asByteRange, cell]
  | tuple cell => simp only [asByteRange, cell]
  | buffer cell => simp only [asByteRange, cell]

/-- What is no interval, no sequence and no byte range is refused for its type. -/
theorem asByteRange_of_otherType (interval : ¬ σ.IsInterval v)
    (sequence : ∀ items, ¬ σ.Holds v items) (record : ¬ σ.IsByteRange v) :
    asByteRange σ v = .aborted (.notARange (σ.typeName v)) := by
  rw [asByteRange.eq_def]
  split
  · next r hr => exact absurd ⟨r, hr⟩ record
  · next cell => exact absurd (.inl ⟨_, _, _, cell⟩) interval
  · next cell => exact absurd (.inr ⟨_, _, _, cell⟩) interval
  · next cell => exact absurd (.list cell) (sequence _)
  · next cell => exact absurd (.tuple cell) (sequence _)
  · next cell => exact absurd (.buffer cell) (sequence _)
  · rfl

/-- An interval that describes no range is misshapen. -/
theorem exists_misshapen (h : σ.IsInterval v) (hspans : ∀ s e, ¬ σ.Spans v s e) :
    ∃ cause, σ.Misshapen v cause := by
  rcases h with ⟨start, stop, step, cell⟩ | ⟨start, stop, step, cell⟩
  · refine ⟨_, .range cell ?_⟩
    rintro rfl
    exact hspans _ _ (.range cell)
  · by_cases heven : step = .none ∨ σ.EqualsOne step
    · obtain rfl : stop = .none := by
        by_contra hclosed
        exact hspans _ _ (.slice cell heven hclosed)
      exact ⟨_, .openSlice cell heven⟩
    · exact ⟨_, .slice cell heven⟩

/-- A collection of two items describes a range. -/
theorem length_ne_two_of_holds {items : List Value} (h : σ.Holds v items)
    (hspans : ∀ s e, ¬ σ.Spans v s e) : items.length ≠ 2 := by
  intro hlength
  cases h with
  | list cell =>
    obtain ⟨s, e, rfl⟩ := List.length_eq_two.1 hlength
    exact hspans _ _ (.list cell)
  | tuple cell =>
    obtain ⟨s, e, rfl⟩ := List.length_eq_two.1 hlength
    exact hspans _ _ (.tuple cell)
  | buffer cell =>
    rw [byteElements, List.length_map] at hlength
    obtain ⟨b, c, rfl⟩ := List.length_eq_two.1 hlength
    exact hspans _ _ (.buffer cell)

/-- A value of no accepted form is a misshapen interval, or mismatches in another way. -/
theorem asByteRange_of_unaccepted (hrecord : ¬ σ.IsByteRange v) (hspans : ∀ s e, ¬ σ.Spans v s e) :
    (∃ cause, σ.Misshapen v cause ∧ asByteRange σ v = .aborted (explain σ v cause)) ∨
      ∃ e, σ.Mismatch v e ∧ ¬ σ.IsInterval v ∧ asByteRange σ v = .aborted e := by
  by_cases hinterval : σ.IsInterval v
  · obtain ⟨cause, hcause⟩ := exists_misshapen hinterval hspans
    exact .inl ⟨cause, hcause, asByteRange_of_misshapen hcause⟩
  refine .inr ?_
  by_cases hholds : ∃ items, σ.Holds v items
  · obtain ⟨items, hitems⟩ := hholds
    have hlength := length_ne_two_of_holds hitems hspans
    exact ⟨_, .notAPair hitems hlength, hinterval,
      (asByteRange_of_holds hitems).trans (pair_of_length hlength)⟩
  · have hsequence : ∀ items, ¬ σ.Holds v items := fun items h => hholds ⟨items, h⟩
    exact ⟨_, .notARange hinterval hsequence hrecord, hinterval,
      asByteRange_of_otherType hinterval hsequence hrecord⟩

/-- A value of no accepted form mismatches in some way, unless that cannot be explained. -/
theorem asByteRange_refused (hrecord : ¬ σ.IsByteRange v) (hspans : ∀ s e, ¬ σ.Spans v s e) :
    (∃ e, σ.Mismatch v e ∧ ¬ (σ.IsInterval v ∧ ∃ f, σ.Hinders v f) ∧
        asByteRange σ v = .aborted e) ∨
      (σ.IsInterval v ∧ ∃ e, σ.Hinders v e ∧ asByteRange σ v = .aborted e) := by
  rcases asByteRange_of_unaccepted hrecord hspans with ⟨cause, hcause, hcheck⟩ | ⟨e, he, hother, heq⟩
  · rw [hcheck]
    rcases explain_cases σ v cause with ⟨s, hs, clear, heq⟩ | ⟨e, he, heq⟩
    · exact .inl ⟨cause s, .interval hcause hs, fun h => h.2.elim clear, by rw [heq]⟩
    · exact .inr ⟨hcause.isInterval, e, he, by rw [heq]⟩
  · exact .inl ⟨e, he, fun h => hother h.1, heq⟩

/-- A range that is not found has issues, or is refused with a failure that is no list of issues. -/
theorem asByteRange_cases (σ : Store) (v : Value) :
    (∃ d, asByteRange σ v = .valid d) ∨
      (∃ issues, issues ≠ [] ∧ asByteRange σ v = .invalid issues) ∨
      ∃ e, (∀ title issues, e ≠ .invalid title issues) ∧ asByteRange σ v = .aborted e := by
  by_cases hrecord : σ.IsByteRange v
  · obtain ⟨l, -, hl⟩ := asByteRange_of_isByteRange hrecord
    exact .inl ⟨_, hl⟩
  by_cases hspans : ∃ start stop, σ.Spans v start stop
  · obtain ⟨start, stop, hspans⟩ := hspans
    rw [asByteRange_of_spans hspans]
    by_cases hissues : endIssues "start" start ++ endIssues "end" stop = []
    · obtain ⟨m, n, hm, hn⟩ := endIssues_append_eq_nil_iff.1 hissues
      exact .inl ⟨_, bounds_of_reads hm hn⟩
    · exact .inr (.inl ⟨_, hissues, bounds_of_issues hissues⟩)
  have hspans : ∀ s e, ¬ σ.Spans v s e := fun s e h => hspans ⟨s, e, h⟩
  rcases asByteRange_of_unaccepted hrecord hspans with ⟨cause, hcause, heq⟩ | ⟨e, he, -, heq⟩
  · have hmismatch : ∀ s title issues, cause s ≠ .invalid title issues := by
      cases hcause <;> exact nofun
    refine .inr (.inr ⟨_, fun title issues => ?_, heq⟩)
    rcases explain_cases σ v cause with ⟨s, -, -, h⟩ | ⟨e, he, h⟩
    · rw [h]
      exact hmismatch s title issues
    · rw [h]
      cases he <;> exact nofun
  · refine .inr (.inr ⟨e, fun title issues => ?_, heq⟩)
    cases he with
    | interval misshapen => cases misshapen <;> exact nofun
    | notAPair => exact nofun
    | notARange => exact nofun

end Validation

namespace Record

open Validation

/-- **Refusals.** A value of no accepted form is refused for its form, and nothing changes; only for
an interval that cannot be written out the failure is the one to write it, for an integer with too
many digits or too many calls. No value at all leads to anything but a byte range, a refusal for its
form, issues with its ends, or such a failure. -/
theorem toByteRange_refused (σ : Store) (v : Value) :
    (¬ σ.IsByteRange v → (∀ s e, ¬ σ.Spans v s e) →
      (¬ (σ.IsInterval v ∧ ∃ e, σ.Hinders v e) →
        ∃ e, σ.Mismatch v e ∧ (toByteRange v).perform σ = (.error e, σ)) ∧
      (σ.IsInterval v ∧ (∃ e, σ.Hinders v e) →
        ∃ e, σ.Hinders v e ∧ (toByteRange v).perform σ = (.error e, σ))) ∧
    ((∃ w τ, (toByteRange v).perform σ = (.ok w, τ) ∧ τ.IsByteRange w) ∨
      (∃ e, σ.Mismatch v e ∧ (toByteRange v).perform σ = (.error e, σ)) ∨
      (∃ issues, issues ≠ [] ∧
        (toByteRange v).perform σ = (.error (.invalid "ByteRange" issues), σ)) ∨
      (¬ σ.IsByteRange v ∧ (∀ s e, ¬ σ.Spans v s e) ∧ σ.IsInterval v ∧
        ∃ e, σ.Hinders v e ∧ (toByteRange v).perform σ = (.error e, σ))) := by
  have aborted : ∀ {e}, asByteRange σ v = .aborted e →
      (toByteRange v).perform σ = (.error e, σ) := fun h =>
    perform_build_of_aborted newByteRange "ByteRange" (asByteRange · v) h
  refine ⟨fun hrecord hspans => ?_, ?_⟩
  · rcases asByteRange_refused hrecord hspans with ⟨e, he, clear, heq⟩ | ⟨hinterval, e, he, heq⟩
    · exact ⟨fun _ => ⟨e, he, aborted heq⟩, fun h => absurd h clear⟩
    · exact ⟨fun clear => absurd ⟨hinterval, e, he⟩ clear, fun _ => ⟨e, he, aborted heq⟩⟩
  by_cases hrecord : σ.IsByteRange v
  · exact .inl ⟨v, σ, toByteRange_of_isByteRange hrecord, hrecord⟩
  by_cases hspans : ∃ start stop, σ.Spans v start stop
  · obtain ⟨start, stop, hspans⟩ := hspans
    by_cases hissues : endIssues "start" start ++ endIssues "end" stop = []
    · obtain ⟨m, n, hm, hn⟩ := endIssues_append_eq_nil_iff.1 hissues
      exact .inl ⟨_, _, toByteRange_of_reads hspans hm hn, _, get?_alloc_self σ _⟩
    · exact .inr (.inr (.inl ⟨_, hissues, toByteRange_of_issues hspans hissues⟩))
  have hspans : ∀ s e, ¬ σ.Spans v s e := fun s e h => hspans ⟨s, e, h⟩
  rcases asByteRange_refused hrecord hspans with ⟨e, he, -, heq⟩ | ⟨hinterval, e, he, heq⟩
  · exact .inr (.inl ⟨e, he, aborted heq⟩)
  · exact .inr (.inr (.inr ⟨hrecord, hspans, hinterval, e, he, aborted heq⟩))

/-- A list that holds itself is cut short where it comes again, so the refusal can be explained. -/
example :
    let σ : Store := ⟨[.list [.object 0], .slice (.int 0) (.object 0) (.int 2)], 0, [], {}⟩
    (toByteRange (.object 1)).perform σ =
      (.error (.unevenRange "slice(0, [[...]], 2)"), σ) :=
  rfl

/-- The bounds of a part with a step of two and an end that is too long to be written. -/
def longSlice : Store where
  cells := [.slice (.int 0) (.int Builder.longNumber) (.int 2)]
  nans := 0
  carried := []

theorem toByteRange_longSlice :
    (toByteRange (.object 0)).perform longSlice = (.error .integerTooLong, longSlice) := by
  have hcell : longSlice.cell? (.object 0) =
      some (.slice (.int 0) (.int Builder.longNumber) (.int 2)) := rfl
  have huneven : ¬ ((.int 2 : Value) = .none ∨ longSlice.EqualsOne (.int 2)) := by
    rw [equalsOne_iff]
    decide
  have hway : longSlice.Way [] (.object 0) 1 (.int Builder.longNumber) :=
    .into (p := ([], .int Builder.longNumber)) hcell (fun h => nomatch h) (.tail _ (.head _)) (.here _ _)
  have hlong : longSlice.Hinders (.object 0) .integerTooLong :=
    .tooLong hway (by decide) (Builder.lt_count_pow (by decide))
  have hslice : longSlice.IsInterval (.object 0) := .inr ⟨_, _, _, hcell⟩
  have hrecord : ¬ longSlice.IsByteRange (.object 0) := by
    rintro ⟨r, hr⟩
    cases hcell.symm.trans hr
  have hrefused := (toByteRange_refused longSlice (.object 0)).1 hrecord
    (Misshapen.slice hcell huneven).not_spans
  obtain ⟨e, he, hperform⟩ := hrefused.2 ⟨hslice, _, hlong⟩
  cases he with
  | tooLong => exact hperform
  | tooDeep way outside =>
    -- the parts of the slice are integers, so no way is longer than one step
    cases way with
    | here => exact absurd outside (by decide)
    | into cell _ part rest =>
      obtain rfl := Option.some.inj (hcell.symm.trans cell)
      obtain ⟨u, hu, rfl⟩ := List.mem_map.1 part
      have hint : ∃ k, u = .int k := by
        simp only [List.mem_cons, List.not_mem_nil, or_false] at hu
        rcases hu with rfl | rfl | rfl <;> exact ⟨_, rfl⟩
      obtain ⟨k, rfl⟩ := hint
      obtain ⟨rfl, rfl⟩ := rest.of_cell?_eq_none rfl
      have hroom : ¬ 990 ≤ 0 + 0 + 1 + 0 := by decide
      exact absurd outside hroom

end Record

end Diagnostics
