import Diagnostics.ByteRange.Part
import Diagnostics.Proofs.Attribute.Total
import Diagnostics.Proofs.Data.Alike
import Diagnostics.Proofs.Validation.Accepted

/-!
# A byte range is one interval

A byte range can be had as a length, as a range of integers and as the bounds of a part. These are
descriptions of the same offsets, whatever its ends are and in whatever order: they count the same,
each is converted back to an equal byte range, and the part of some bytes has those bytes that lie at
the offsets, one by one and in order (`helpers_agree`).
-/

namespace Diagnostics

variable {σ τ : Store} {v w : Value} {r : ByteRange}

open Store Diagnostics.Action

/-! ## Offsets -/

/-- Taking up to an end and dropping up to a start leaves what lies at the places in between. -/
theorem drop_take_eq_filterMap {α : Type} (xs : List α) (start count : Nat) :
    (xs.drop start).take count = (List.range' start count).filterMap (xs[·]?) := by
  induction count generalizing start with
  | zero => rw [List.take_zero, List.range'_zero, List.filterMap_nil]
  | succ count ih =>
    rw [List.range'_succ, List.filterMap_cons, ← ih]
    by_cases h : start < xs.length
    · rw [List.drop_eq_getElem_cons h, List.getElem?_eq_getElem h, List.take_succ_cons]
    · have hnone : xs[start]? = none := List.getElem?_eq_none (Nat.le_of_not_lt h)
      rw [List.drop_eq_nil_of_le (Nat.le_of_not_lt h), List.drop_eq_nil_of_le (by omega), hnone,
        List.take_nil, List.take_nil]

namespace ByteRange

theorem mem_offsets {n : Nat} : n ∈ r.offsets ↔ r.start ≤ n ∧ n < r.stop := by
  rw [offsets, List.mem_range'_1, length]
  omega

/-- The offsets come in order, each once. -/
theorem pairwise_offsets (r : ByteRange) : r.offsets.Pairwise (· < ·) := List.pairwise_lt_range'

/-- The part that a range covers has what lies at the offsets of the range. -/
theorem slice_eq_filterMap {α : Type} (r : ByteRange) (xs : List α) :
    r.slice xs = r.offsets.filterMap (xs[·]?) := by
  rw [slice_eq, List.drop_take, drop_take_eq_filterMap, offsets, length]

/-- Both ends are clipped, and the part is as long as the clipped ends are apart. -/
theorem length_slice {α : Type} (r : ByteRange) (xs : List α) :
    (r.slice xs).length = min r.stop xs.length - min r.start xs.length := by
  rw [slice_eq, List.length_drop, List.length_take]
  omega

/-- A part is never longer than its range. -/
theorem length_slice_le {α : Type} (r : ByteRange) (xs : List α) :
    (r.slice xs).length ≤ r.length := by
  rw [length_slice, length]
  omega

/-- The integers from the start to the end of a range are its offsets. -/
theorem terms_eq (r : ByteRange) :
    Progression.terms r.start r.stop 1 = r.offsets.map fun n : Nat => (n : Int) := by
  have hlength : Progression.length r.start r.stop 1 = r.length := by
    rw [Progression.length_one, length]
    omega
  rw [Progression.terms, hlength, offsets, List.range'_eq_map_range, List.map_map]
  refine List.map_congr_left fun i _ => ?_
  simp only [Function.comp_apply, Int.mul_one, Int.natCast_add]

/-- The fields of a byte range. -/
def fields (r : ByteRange) : RangeFields := ⟨.int r.start, .int r.stop⟩

theorem view_of_fields (h : σ.cell? v = some (.byteRange r.fields)) : σ.view v = some r.data := by
  obtain ⟨l, rfl, hl⟩ := exists_of_cell? h
  have hunfolds : σ.Unfolds (fun v d => σ.unfold 0 v = some d) (.object l) r.data :=
    .byteRange hl rfl rfl
  refine unfold_mono (Grows.refl σ) ?_ (unfold_succ_iff.2 hunfolds)
  exact Nat.lt_of_le_of_lt (Nat.zero_le l) (lt_size_of_get? hl)

theorem equal_data_self (r : ByteRange) : Data.equal r.data r.data := by
  rw [Data.equal]
  · exact r.alike_data_self
  · simp [data]

end ByteRange

/-! ## What a byte range computes -/

namespace Attribute

/-- The difference between the ends, or zero where the end comes first. -/
theorem perform_length (r : ByteRange) :
    (length r.fields).perform σ = (.ok (.int r.length), σ) := by
  have hdifference : (difference (.int r.stop) (.int r.start)).perform σ =
      (.ok (.int (r.stop - r.start)), σ) := rfl
  rw [length, ByteRange.fields, perform_bind_of_ok _ hdifference,
    perform_bind_of_ok _ (perform_view σ (view_int σ _)), Data.relate_int,
    perform_bind_of_ok _ (perform_ofExcept σ _), ByteRange.length]
  by_cases h : r.stop < r.start
  · have hbelow : compare (0 : Int) (r.stop - r.start) = .gt := by
      rw [compare_gt_iff_gt]
      omega
    rw [hbelow, Nat.sub_eq_zero_of_le h.le]
    rfl
  · have habove : compare (0 : Int) (r.stop - r.start) ≠ .gt := by
      rw [Ne, compare_gt_iff_gt]
      omega
    have hholds : Relation.gt.holds (compare (0 : Int) (r.stop - r.start)) = false :=
      beq_eq_false_iff_ne.2 habove
    rw [hholds, Int.ofNat_sub (Nat.le_of_not_lt h)]
    rfl

theorem perform_isEmpty (r : ByteRange) :
    (isEmpty r.fields).perform σ = (.ok (decide (r.length = 0)), σ) := by
  rw [isEmpty, ByteRange.fields, perform_bind_of_ok _ (perform_view σ (view_int σ _)),
    perform_bind_of_ok _ (perform_view σ (view_int σ _)), Data.relate_int, perform_ofExcept]
  congr 2
  rw [Relation.holds, bne, Bool.eq_iff_iff, Bool.not_eq_true', beq_eq_false_iff_ne, Ne,
    compare_gt_iff_gt, decide_eq_true_iff, ByteRange.length]
  omega

end Attribute

namespace RangeFields

theorem perform_asRange (r : ByteRange) : r.fields.asRange.perform σ =
    (.ok (.object σ.size), (σ.alloc (.range r.start r.stop 1)).2) := rfl

theorem perform_asSlice (r : ByteRange) : r.fields.asSlice.perform σ =
    (.ok (.object σ.size), (σ.alloc (.slice (.int r.start) (.int r.stop) .none)).2) := rfl

/-- The part of bytes is taken between the ends as they are. -/
theorem perform_sliceBytes (r : ByteRange) (bs : List UInt8) :
    (r.fields.sliceBytes bs).perform σ = (.ok (r.slice bs), σ) := rfl

end RangeFields

/-! ## Conversion -/

/-- Whether a value is converted to a byte range with these ends, which equals another value. -/
def Store.ConvertsTo (σ : Store) (w : Value) (r : ByteRange) (v : Value) : Prop :=
  ∃ u τ, (Record.toByteRange w).perform σ = (.ok u, τ) ∧ τ.cell? u = some (.byteRange r.fields) ∧
    ∃ d e, τ.view u = some d ∧ τ.view v = some e ∧ Data.equal d e

/-- The bounds of a part without a step have a start and an end if neither is left open. -/
theorem Store.Spans.of_slice {start stop : Value} (hcell : σ.cell? w = some (.slice start stop .none))
    (hstart : start ≠ .none) (hstop : stop ≠ .none) : σ.Spans w start stop := by
  have hspans := Spans.slice hcell (.inl rfl) hstop
  rwa [if_neg hstart] at hspans

/-- What has the ends of a byte range is converted to an equal one, also if the end comes first. -/
theorem Store.Spans.convertsTo (h : σ.Spans w (.int r.start) (.int r.stop))
    (hv : σ.cell? v = some (.byteRange r.fields)) : σ.ConvertsTo w r v := by
  have hcell := get?_alloc_self σ (.byteRange r.fields)
  have hview := view_of_grows (Grows.alloc σ (.byteRange r.fields)) (ByteRange.view_of_fields hv)
  exact ⟨_, _, Record.toByteRange_of_reads h (.int _) (.int _), hcell, r.data, r.data,
    ByteRange.view_of_fields hcell, hview, r.equal_data_self⟩

/-- **One interval.** The length of a byte range counts its offsets, and it is empty if there are
none. As a range of integers it gives its offsets one by one. That range, the bounds of a part and the
pair of its ends are each converted to a byte range equal to it, also if its end comes before its
start. The part of any bytes that it covers has the bytes at those of its offsets at which there is
one, in order; so the part is as long as the ends are apart once they are clipped, and never longer
than the range. -/
theorem ByteRange.helpers_agree (h : σ.cell? v = some (.byteRange r.fields)) :
    (Attribute.read v "length").perform σ = (.ok (.int r.length), σ) ∧
    (Attribute.read v "is_empty").perform σ = (.ok (.bool (decide (r.length = 0))), σ) ∧
    (∀ n, n ∈ r.offsets ↔ r.start ≤ n ∧ n < r.stop) ∧ r.offsets.Pairwise (· < ·) ∧
    (∃ w τ, r.fields.asRange.perform σ = (.ok w, τ) ∧
      τ.elements? w = some (r.offsets.map fun n : Nat => .int n, τ) ∧
      r.offsets.length = r.length ∧ τ.ConvertsTo w r v) ∧
    (∃ w τ, r.fields.asSlice.perform σ = (.ok w, τ) ∧
      τ.cell? w = some (.slice (.int r.start) (.int r.stop) .none) ∧ τ.ConvertsTo w r v) ∧
    (∀ p, σ.cell? p = some (.tuple [.int r.start, .int r.stop]) ∨
      σ.cell? p = some (.list [.int r.start, .int r.stop]) → σ.ConvertsTo p r v) ∧
    ∀ bs, ∃ part, (r.fields.sliceBytes bs).perform σ = (.ok part, σ) ∧
      part = r.offsets.filterMap (bs[·]?) ∧
      part.length = min r.stop bs.length - min r.start bs.length ∧ part.length ≤ r.length := by
  have hkept (c : Cell) : (σ.alloc c).2.cell? v = some (.byteRange r.fields) := by
    obtain ⟨l, rfl, hl⟩ := exists_of_cell? h
    exact get?_alloc_of_get? c hl
  refine ⟨?_, ?_, fun n => mem_offsets, r.pairwise_offsets, ?_, ?_, ?_, fun bs => ?_⟩
  · rw [Attribute.read, perform_bind_of_ok _ (perform_cell? σ v), h]
    exact Attribute.perform_length r
  · rw [Attribute.read, perform_bind_of_ok _ (perform_cell? σ v), h]
    exact perform_bind_of_ok σ (Attribute.perform_isEmpty r)
  · have hcell := get?_alloc_self σ (.range r.start r.stop 1)
    have hspans : (σ.alloc (.range r.start r.stop 1)).2.Spans (.object σ.size) (.int r.start)
        (.int r.stop) := .range hcell
    refine ⟨_, _, RangeFields.perform_asRange r, ?_, r.length_offsets, hspans.convertsTo (hkept _)⟩
    simp only [elements?, Value.asText?, hcell, Cell.items?, r.terms_eq, List.map_map]
    rfl
  · have hcell := get?_alloc_self σ (.slice (.int r.start) (.int r.stop) .none)
    have hspans : (σ.alloc (.slice (.int r.start) (.int r.stop) .none)).2.Spans (.object σ.size)
        (.int r.start) (.int r.stop) := .of_slice hcell (by simp) (by simp)
    exact ⟨_, _, RangeFields.perform_asSlice r, hcell, hspans.convertsTo (hkept _)⟩
  · rintro p (hp | hp)
    · exact (Spans.tuple hp).convertsTo h
    · exact (Spans.list hp).convertsTo h
  · exact ⟨_, RangeFields.perform_sliceBytes r bs, r.slice_eq_filterMap bs, r.length_slice bs,
      r.length_slice_le bs⟩

/-- A byte range that ends beyond some bytes, and one that ends before it starts. -/
def twoIntervals : Store where
  cells := [.byteRange ⟨.int 2, .int 7⟩, .byteRange ⟨.int 4, .int 1⟩]
  nans := 0
  carried := []

theorem ByteRange.helpers_agree_twoIntervals :
    (RangeFields.sliceBytes ⟨.int 2, .int 7⟩ [5, 6, 7, 8]).perform twoIntervals =
      (.ok [7, 8], twoIntervals) ∧
    (Attribute.read (.object 1) "length").perform twoIntervals = (.ok (.int 0), twoIntervals) ∧
    ∃ w τ, (RangeFields.asRange ⟨.int 4, .int 1⟩).perform twoIntervals = (.ok w, τ) ∧
      τ.ConvertsTo w ⟨4, 1⟩ (.object 1) := by
  have hlong : twoIntervals.cell? (.object 0) = some (.byteRange (ByteRange.fields ⟨2, 7⟩)) := rfl
  have hinverted : twoIntervals.cell? (.object 1) = some (.byteRange (ByteRange.fields ⟨4, 1⟩)) := rfl
  obtain ⟨-, -, -, -, -, -, -, hparts⟩ := helpers_agree hlong
  obtain ⟨part, hperform, rfl, -⟩ := hparts [5, 6, 7, 8]
  obtain ⟨hlength, -, -, -, ⟨w, τ, hrange, -, -, hconverts⟩, -⟩ := helpers_agree hinverted
  exact ⟨hperform, hlength, w, τ, hrange, hconverts⟩

end Diagnostics
