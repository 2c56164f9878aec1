import Diagnostics.Proofs.Builder.Copied
import Diagnostics.Proofs.Number.Spelled

/-!
# What is accepted as a byte range

A value describes a range by its form (`Store.Spans`): a range of integers with a step of one, the
bounds of a part, or a collection of two items. Both ends must then be read as integers that are not
below zero (`Value.Reads`). A byte range is all that is taken besides, and it is taken as it is
(`toByteRange_accepted`).
-/

namespace Diagnostics

variable {σ τ : Store} {v w start stop : Value} {m n : Nat}

open Diagnostics.Action Store

/-! ## What is read as an integer -/

namespace Digits

theorem signed_mul (s : Bool) (m k : Nat) : signed s (m * k) = signed s m * k := by
  cases s
  · simp [signed]
  · simp only [signed, if_true, Int.natCast_mul, Int.neg_mul]

theorem natAbs_signed (s : Bool) (m : Nat) : (signed s m).natAbs = m := by
  cases s <;> simp [signed]

/-- A fraction in lowest terms times a number is whole when the denominator divides the number. -/
theorem signed_quotient {s : Bool} {m up down : Nat} {n : Int} (hpos : 0 < down)
    (hcoprime : up.Coprime down) :
    (if m % down = 0 then some (signed s (m * up / down)) else none) = some n ↔
      signed s m * up = n * down := by
  constructor
  · intro h
    split at h
    · next hm =>
      obtain ⟨q, rfl⟩ := Nat.dvd_of_mod_eq_zero hm
      rw [← Option.some.inj h, Nat.mul_assoc, Nat.mul_div_cancel_left _ hpos, Nat.mul_comm down q,
        signed_mul, signed_mul, Int.mul_right_comm]
    · cases h
  · intro h
    have habs := congrArg Int.natAbs h
    rw [Int.natAbs_mul, Int.natAbs_mul, natAbs_signed, Int.natAbs_natCast,
      Int.natAbs_natCast] at habs
    obtain ⟨q, rfl⟩ : down ∣ m :=
      hcoprime.symm.dvd_of_dvd_mul_right (habs ▸ Nat.dvd_mul_left down n.natAbs)
    rw [if_pos (Nat.mul_mod_right _ _), Nat.mul_assoc, Nat.mul_div_cancel_left _ hpos]
    rw [Nat.mul_comm down q, signed_mul, Int.mul_right_comm] at h
    have hdown : (down : Int) ≠ 0 := by omega
    rw [signed_mul, Int.eq_of_mul_eq_mul_right hdown h]

end Digits

namespace Binary64

theorem coprime_power (base : Nat) (e : Int) : (power base e).1.Coprime (power base e).2 := by
  rcases Int.le_total 0 e with he | he
  · rw [power, Int.toNat_eq_zero.2 (Int.neg_nonpos_of_nonneg he)]
    exact Nat.coprime_one_right _
  · rw [power, Int.toNat_eq_zero.2 he]
    exact Nat.coprime_one_left _

theorem order_ofInt {s : Bool} {m : Nat} {e n : Int} :
    (finite s m e).order (.ofInt n) = some .eq ↔
      Digits.signed s m * (power 2 e).1 = n * (power 2 e).2 := by
  rw [ofInt, order]
  simp only [Option.some.injEq, compare_eq_iff_eq, Digits.signed_natAbs, power]
  rcases Int.le_total 0 e with he | he
  · rw [Int.min_eq_right he, Int.toNat_eq_zero.2 (Int.neg_nonpos_of_nonneg he)]
    simp
  · rw [Int.min_eq_left he, Int.toNat_eq_zero.2 he]
    simp

theorem order_integers (m n : Int) : (ofInt m).order (.ofInt n) = some (compare m n) := by
  simp [ofInt, order, Digits.signed_natAbs, power]

/-- A number is whole when it equals an integer. -/
theorem toInt?_eq_some_iff {x : Binary64} {n : Int} :
    x.toInt? = some n ↔ x.order (.ofInt n) = some .eq := by
  cases x with
  | nan t =>
    refine ⟨fun h => ?_, by simp [order]⟩
    cases h
  | infinite s =>
    refine ⟨fun h => ?_, ?_⟩
    · cases h
    · cases s <;> simp [ofInt, order]
  | finite s m e =>
    rw [order_ofInt]
    exact Digits.signed_quotient (Nat.pow_pos (by decide)) (coprime_power 2 e)

end Binary64

/-- Whether a value is read as an integer: it is one, or a number that equals one and is of moderate
size, or a text or bytes that spell one. -/
inductive Value.Reads : Value → Int → Prop
  | bool (b : Bool) : Reads (.bool b) b.toNat
  | int (n : Int) : Reads (.int n) n
  | real {x : Binary64} {n : Int} (equal : x.order (.ofInt n) = some .eq)
    (moderate : n.natAbs < Validation.wholeLimit) : Reads (.real x) n
  | text {v : Value} {s : String} {n : Int} (text : v.asText? = some s)
    (spelled : Lenient.Spells digitLimit s.toList n) : Reads v n
  | bytes {bs : List UInt8} {s : String} {n : Int} (text : Utf8.decode? bs = some s)
    (spelled : Lenient.Spells digitLimit s.toList n) : Reads (.bytes bs) n

namespace Check

variable {α : Type}

/-- Whether a check finds what was asked for where some condition holds, and one issue otherwise. -/
def Decides (c : Check α) (P : α → Prop) : Prop :=
  (∃ a, c = .valid a ∧ ∀ b, P b ↔ a = b) ∨ ((∀ b, ¬ P b) ∧ ∃ kind, c = .refuse kind)

theorem Decides.imp {c : Check α} {P Q : α → Prop} (h : c.Decides P) (hPQ : ∀ a, P a ↔ Q a) :
    c.Decides Q := by
  obtain rfl : P = Q := funext fun a => propext (hPQ a)
  exact h

end Check

namespace Validation

theorem natural_decides (i : Int) : (natural i).Decides fun m => i = m := by
  rw [natural]
  split
  · exact .inr ⟨fun m => by omega, _, rfl⟩
  · exact .inl ⟨_, rfl, fun m => by omega⟩

theorem spelled_decides (s : String) :
    (spelled s).Decides fun m => Lenient.Spells digitLimit s.toList m := by
  simp only [← Lenient.read_eq_ok_iff]
  rw [spelled]
  rcases Lenient.read digitLimit s.toList with (_ | _) | i
  · refine .inr ⟨fun m h => ?_, _, rfl⟩
    cases h
  · refine .inr ⟨fun m h => ?_, _, rfl⟩
    cases h
  · simpa using natural_decides i

theorem whole_decides (x : Binary64) :
    (whole x).Decides fun m => x.order (.ofInt m) = some .eq ∧ m < wholeLimit := by
  simp only [← Binary64.toInt?_eq_some_iff]
  rw [whole]
  rcases hwhole : x.toInt? with _ | i
  · split
    · refine .inr ⟨fun m h => ?_, _, rfl⟩
      cases h.1
    · refine .inr ⟨fun m h => ?_, _, rfl⟩
      cases h.1
  · have hfinite : x.isFinite = true := by
      cases x with
      | finite => rfl
      | _ => cases hwhole
    rw [hfinite, if_neg (by decide)]
    dsimp only
    split
    · next hmoderate =>
      refine (natural_decides i).imp fun m => ⟨?_, fun h => Option.some.inj h.1⟩
      rintro rfl
      exact ⟨rfl, by simpa using hmoderate⟩
    · next hlarge =>
      refine .inr ⟨fun m => ?_, _, rfl⟩
      rintro ⟨hi, hm⟩
      obtain rfl := Option.some.inj hi
      exact hlarge (by simpa using hm)

end Validation

namespace Value

/-- A text, a level or a style is read as what it spells. -/
theorem reads_iff_of_asText? {s : String} {n : Int} (h : v.asText? = some s) :
    v.Reads n ↔ Lenient.Spells digitLimit s.toList n := by
  refine ⟨fun hreads => ?_, fun hspelled => .text h hspelled⟩
  cases hreads with
  | text htext hspelled =>
    obtain rfl := Option.some.inj (h.symm.trans htext)
    exact hspelled
  | _ => cases h

end Value

namespace Validation

/-- An offset is what is read as an integer that is not below zero. -/
theorem offset_decides (v : Value) : (offset v).Decides fun m => v.Reads m := by
  have plain : ∀ {w : Value} {s}, w.asText? = some s → (spelled s).Decides fun m => w.Reads m :=
    fun h => (spelled_decides _).imp fun m => (Value.reads_iff_of_asText? h).symm
  cases v with
  | bool b =>
    refine .inl ⟨_, rfl, fun m => ⟨fun h => ?_, fun h => h ▸ .bool b⟩⟩
    cases h with
    | bool => rfl
    | text htext => cases htext
  | int i =>
    refine (natural_decides i).imp fun m => ⟨fun h => h ▸ .int i, fun h => ?_⟩
    cases h with
    | int => rfl
    | text htext => cases htext
  | real x =>
    refine (whole_decides x).imp fun m => ⟨fun h => .real h.1 h.2, fun h => ?_⟩
    cases h with
    | real equal moderate => exact ⟨equal, by simpa using moderate⟩
    | text htext => cases htext
  | text s => exact plain rfl
  | severity s => exact plain rfl
  | style s => exact plain rfl
  | bytes bs =>
    rw [offset]
    rcases hs : Utf8.decode? bs with _ | s
    · refine .inr ⟨fun m h => ?_, _, rfl⟩
      cases h with
      | text htext => cases htext
      | bytes htext =>
        rw [hs] at htext
        cases htext
    · refine (spelled_decides s).imp fun m => ⟨fun h => .bytes hs h, fun h => ?_⟩
      cases h with
      | text htext => cases htext
      | bytes htext hspelled =>
        obtain rfl := Option.some.inj (hs.symm.trans htext)
        exact hspelled
  | none =>
    refine .inr ⟨fun m h => ?_, _, rfl⟩
    cases h with
    | text htext => cases htext
  | object l =>
    refine .inr ⟨fun m h => ?_, _, rfl⟩
    cases h with
    | text htext => cases htext

end Validation

/-! ## Forms -/

namespace Store

/-- Whether a value equals one. -/
def EqualsOne (σ : Store) (v : Value) : Prop := ∃ d : Data, σ.view v = some d ∧ d.equal (.int 1)

/-- Only numbers equal one, and among them only one does. -/
theorem isOne_eq {d : Data} (hd : σ.view v = some d) : Validation.isOne v = d.equal (.int 1) := by
  have hshown := unfolds_of_view hd
  cases hshown with
  | bool b =>
    cases b <;>
      simp [Validation.isOne, Data.equal, Data.alike, Data.alikePlain, Data.asNumber?] <;> decide
  | int n =>
    simp [Validation.isOne, Data.equal, Data.alike, Data.alikePlain, Data.asNumber?,
      Binary64.order_integers]
  | real x =>
    cases x <;>
      simp [Validation.isOne, Data.equal, Data.alike, Data.alikePlain, Data.asNumber?,
        Binary64.order]
  | _ =>
    simp [Validation.isOne, Data.equal, Data.alike, Data.alikePlain, Data.asNumber?, Data.asText?,
      Data.asBytes?]

theorem equalsOne_iff : σ.EqualsOne v ↔ Validation.isOne v := by
  constructor
  · rintro ⟨d, hd, hequal⟩
    rw [isOne_eq hd, hequal]
  · intro hone
    obtain ⟨d, hd⟩ : ∃ d, σ.view v = some d := by
      cases v with
      | bool b => exact ⟨_, view_of_unfold_zero rfl⟩
      | int n => exact ⟨_, view_int σ n⟩
      | real x => exact ⟨_, view_of_unfold_zero rfl⟩
      | _ => cases hone
    exact ⟨d, hd, (isOne_eq hd).symm.trans hone⟩

/-- Whether a value describes a range that has some start and some end. -/
inductive Spans (σ : Store) (v : Value) : Value → Value → Prop
  | range {start stop : Int} (cell : σ.cell? v = some (.range start stop 1)) :
    Spans σ v (.int start) (.int stop)
  | slice {start stop step : Value} (cell : σ.cell? v = some (.slice start stop step))
    (even : step = .none ∨ σ.EqualsOne step) (closed : stop ≠ .none) :
    Spans σ v (if start = .none then .int 0 else start) stop
  | list {start stop : Value} (cell : σ.cell? v = some (.list [start, stop])) : Spans σ v start stop
  | tuple {start stop : Value} (cell : σ.cell? v = some (.tuple [start, stop])) :
    Spans σ v start stop
  | buffer {b c : UInt8} (cell : σ.cell? v = some (.buffer [b, c])) :
    Spans σ v (.int b.toNat) (.int c.toNat)

end Store

namespace Validation

theorem asByteRange_of_isByteRange (h : σ.IsByteRange v) :
    ∃ l, v = .object l ∧ asByteRange σ v = .valid (.existing l) := by
  obtain ⟨r, hr⟩ := h
  obtain ⟨l, rfl, hl⟩ := exists_of_cell? hr
  exact ⟨l, rfl, by simp only [asByteRange, hr]⟩

/-- Whether the step of a part is refused. -/
theorem refusesStep_iff {step : Value} :
    (step != .none && !isOne step) = true ↔ ¬ (step = .none ∨ σ.EqualsOne step) := by
  rw [equalsOne_iff]
  simp

theorem asByteRange_of_spans (h : σ.Spans v start stop) :
    asByteRange σ v = bounds start stop := by
  cases h with
  | range cell => simp only [asByteRange, cell, if_true]
  | slice cell even closed =>
    have heven := mt refusesStep_iff.1 (not_not_intro even)
    simp only [asByteRange, cell, if_neg heven, if_neg closed]
  | list cell => simp only [asByteRange, cell, pair]
  | tuple cell => simp only [asByteRange, cell, pair]
  | buffer cell => simp only [asByteRange, cell, pair, byteElements, List.map_cons, List.map_nil]

/-- Only two items are a pair. -/
theorem pair_of_length {items : List Value} (h : items.length ≠ 2) :
    pair items = .aborted (.notAPair items.length) := by
  rcases items with _ | ⟨s, _ | ⟨e, _ | ⟨u, us⟩⟩⟩
  · rfl
  · rfl
  · exact absurd rfl h
  · rfl

/-- What has no such form is no matter of issues. -/
theorem asByteRange_of_other (hrecord : ¬ σ.IsByteRange v) (hspans : ∀ s e, ¬ σ.Spans v s e) :
    ∃ failure, asByteRange σ v = .aborted failure := by
  have pairs : ∀ items : List Value, (∀ s e, items ≠ [s, e]) →
      ∃ failure, pair items = .aborted failure := by
    intro items hitems
    refine ⟨_, pair_of_length fun hlength => ?_⟩
    obtain ⟨s, e, rfl⟩ := List.length_eq_two.1 hlength
    exact hitems s e rfl
  rw [asByteRange.eq_def]
  split
  · next r hr => exact absurd ⟨r, hr⟩ hrecord
  · next first last step cell =>
    have hstep : step ≠ 1 := by
      rintro rfl
      exact hspans _ _ (.range cell)
    exact ⟨_, if_neg hstep⟩
  · next first last step cell =>
    split
    · exact ⟨_, rfl⟩
    · next heven =>
      have heven : step = .none ∨ σ.EqualsOne step := not_not.1 (mt refusesStep_iff.2 heven)
      have hopen : last = .none := by
        by_contra hclosed
        exact hspans _ _ (.slice cell heven hclosed)
      exact ⟨_, if_pos hopen⟩
  · next items cell => exact pairs items fun s e hitems => hspans s e (.list (hitems ▸ cell))
  · next items cell => exact pairs items fun s e hitems => hspans s e (.tuple (hitems ▸ cell))
  · next bs cell =>
    refine pairs _ fun s e hitems => ?_
    obtain ⟨b, c, rfl⟩ : ∃ b c, bs = [b, c] := by
      refine List.length_eq_two.1 ?_
      simpa [byteElements] using congrArg List.length hitems
    exact hspans _ _ (.buffer cell)
  · exact ⟨_, rfl⟩

/-! ## Ends -/

/-- The issues with one end of a range. -/
def endIssues (name : String) (v : Value) : List Issue :=
  ((offset v).under (.field name)).issues

/-- An end has no issue if it is read as an integer that is not below zero, and one otherwise. -/
theorem endIssues_cases (name : String) (v : Value) :
    (endIssues name v = [] ∧ ∃ m : Nat, v.Reads m ∧ offset v = .valid m) ∨
      ((∀ m : Nat, ¬ v.Reads m) ∧ ∃ kind, endIssues name v = [⟨[.field name], kind⟩] ∧
        offset v = .refuse kind) := by
  rcases offset_decides v with ⟨m, hm, hreads⟩ | ⟨hnone, kind, hkind⟩
  · exact .inl ⟨by rw [endIssues, hm]; rfl, m, (hreads m).2 rfl, hm⟩
  · exact .inr ⟨hnone, kind, by rw [endIssues, hkind]; rfl, hkind⟩

theorem endIssues_eq_nil_iff {name : String} : endIssues name v = [] ↔ ∃ m : Nat, v.Reads m := by
  rcases endIssues_cases name v with ⟨hnil, m, hm, -⟩ | ⟨hnone, kind, hkind, -⟩
  · exact ⟨fun _ => ⟨m, hm⟩, fun _ => hnil⟩
  · rw [hkind]
    exact ⟨nofun, fun ⟨m, hm⟩ => absurd hm (hnone m)⟩

/-- There is no issue with a range when both ends are read. -/
theorem endIssues_append_eq_nil_iff : endIssues "start" start ++ endIssues "end" stop = [] ↔
    ∃ m n : Nat, start.Reads m ∧ stop.Reads n := by
  rw [List.append_eq_nil_iff, endIssues_eq_nil_iff, endIssues_eq_nil_iff]
  exact ⟨fun ⟨⟨m, hm⟩, n, hn⟩ => ⟨m, n, hm, hn⟩, fun ⟨m, n, hm, hn⟩ => ⟨⟨m, hm⟩, n, hn⟩⟩

/-- An end is read as one integer only. -/
theorem offset_of_reads (h : v.Reads m) : offset v = .valid m := by
  rcases offset_decides v with ⟨k, hk, hreads⟩ | ⟨hnone, -⟩
  · rw [hk, (hreads m).1 h]
  · exact absurd h (hnone m)

theorem bounds_of_reads (hstart : start.Reads m) (hstop : stop.Reads n) :
    bounds start stop = .valid (.fresh ⟨m, n⟩) := by
  rw [bounds, offset_of_reads hstart, offset_of_reads hstop]
  rfl

/-- The issues with both ends are listed, those with the start first. -/
theorem bounds_of_issues (h : endIssues "start" start ++ endIssues "end" stop ≠ []) :
    bounds start stop = .invalid (endIssues "start" start ++ endIssues "end" stop) := by
  rcases endIssues_cases "start" start with ⟨hstart, m, -, hm⟩ | ⟨-, kind, hstart, hkind⟩
  · rcases endIssues_cases "end" stop with ⟨hstop, -⟩ | ⟨-, more, hstop, hmore⟩
    · rw [hstart, hstop] at h
      exact absurd rfl h
    · rw [hstart, hstop, bounds, hm, hmore]
      rfl
  · rcases endIssues_cases "end" stop with ⟨hstop, n, -, hn⟩ | ⟨-, more, hstop, hmore⟩
    · rw [hstart, hstop, bounds, hkind, hn]
      rfl
    · rw [hstart, hstop, bounds, hkind, hmore]
      rfl

end Validation

/-! ## Byte ranges -/

namespace Record

open Validation

theorem perform_build_of_invalid {α : Type} (make : Store → α → Value × Store) (title : String)
    (check : Store → Check (Draft α)) {issues : List Issue} (h : check σ = .invalid issues) :
    (build make title check).perform σ = (.error (.invalid title issues), σ) := by
  simp only [perform, build, ExceptT.run, StateT.run, h, Check.toExcept]

theorem perform_build_of_aborted {α : Type} (make : Store → α → Value × Store) (title : String)
    (check : Store → Check (Draft α)) {failure : Failure} (h : check σ = .aborted failure) :
    (build make title check).perform σ = (.error failure, σ) := by
  simp only [perform, build, ExceptT.run, StateT.run, h, Check.toExcept]

/-- A byte range is taken as it is. -/
theorem toByteRange_of_isByteRange (h : σ.IsByteRange v) :
    (toByteRange v).perform σ = (.ok v, σ) := by
  obtain ⟨l, rfl, hvalid⟩ := asByteRange_of_isByteRange h
  exact perform_build newByteRange "ByteRange" (asByteRange · (.object l)) hvalid

/-- The ends are taken as they are read, in any order. -/
theorem toByteRange_of_reads (h : σ.Spans v start stop) (hstart : start.Reads m)
    (hstop : stop.Reads n) : (toByteRange v).perform σ =
      (.ok (.object σ.size), (σ.alloc (.byteRange ⟨.int m, .int n⟩)).2) :=
  perform_build newByteRange "ByteRange" (asByteRange · v)
    ((asByteRange_of_spans h).trans (bounds_of_reads hstart hstop))

theorem toByteRange_of_issues (h : σ.Spans v start stop)
    (hissues : endIssues "start" start ++ endIssues "end" stop ≠ []) : (toByteRange v).perform σ =
      (.error (.invalid "ByteRange" (endIssues "start" start ++ endIssues "end" stop)), σ) :=
  perform_build_of_invalid newByteRange "ByteRange" (asByteRange · v)
    ((asByteRange_of_spans h).trans (bounds_of_issues hissues))

/-- A value without such a form is refused. -/
theorem not_ok_of_other (hrecord : ¬ σ.IsByteRange v) (hspans : ∀ s e, ¬ σ.Spans v s e) :
    (toByteRange v).perform σ ≠ (.ok w, τ) := by
  obtain ⟨failure, hfailure⟩ := asByteRange_of_other hrecord hspans
  have hperform : (toByteRange v).perform σ = (.error failure, σ) :=
    perform_build_of_aborted newByteRange "ByteRange" (asByteRange · v) hfailure
  rw [hperform]
  exact nofun

/-- What a conversion gives is a byte range. -/
theorem isByteRange_of_toByteRange (h : (toByteRange v).perform σ = (.ok w, τ)) :
    (σ.IsByteRange v ∨ ∃ start stop, σ.Spans v start stop ∧ ∃ m n : Nat,
      start.Reads m ∧ stop.Reads n) ∧ τ.IsByteRange w := by
  by_cases hrecord : σ.IsByteRange v
  · rw [toByteRange_of_isByteRange hrecord] at h
    obtain ⟨⟩ := h
    exact ⟨.inl hrecord, hrecord⟩
  by_cases hspans : ∃ start stop, σ.Spans v start stop
  · obtain ⟨start, stop, hspans⟩ := hspans
    by_cases hissues : endIssues "start" start ++ endIssues "end" stop = []
    · obtain ⟨m, n, hm, hn⟩ := endIssues_append_eq_nil_iff.1 hissues
      rw [toByteRange_of_reads hspans hm hn] at h
      obtain ⟨⟩ := h
      exact ⟨.inr ⟨start, stop, hspans, m, n, hm, hn⟩, _, get?_alloc_self σ _⟩
    · rw [toByteRange_of_issues hspans hissues] at h
      cases h
  · exact absurd h (not_ok_of_other hrecord fun s e hse => hspans ⟨s, e, hse⟩)

/-- **Byte ranges.** A byte range is taken as it is. Of all other values those are accepted that
describe a range with two ends, both of which are read as integers that are not below zero; the new
byte range has these ends in this order. Where an end is not read so, the issues with both are
listed. What has been converted is not converted again. -/
theorem toByteRange_accepted (σ : Store) (v : Value) :
    ((∃ w τ, (toByteRange v).perform σ = (.ok w, τ)) ↔ σ.IsByteRange v ∨
      ∃ start stop, σ.Spans v start stop ∧ ∃ m n : Nat, start.Reads m ∧ stop.Reads n) ∧
    (σ.IsByteRange v → (toByteRange v).perform σ = (.ok v, σ)) ∧
    (∀ start stop, σ.Spans v start stop →
      (∀ m n : Nat, start.Reads m → stop.Reads n → (toByteRange v).perform σ =
        (.ok (.object σ.size), (σ.alloc (.byteRange ⟨.int m, .int n⟩)).2)) ∧
      ((¬ ∃ m n : Nat, start.Reads m ∧ stop.Reads n) → (toByteRange v).perform σ =
        (.error (.invalid "ByteRange" (endIssues "start" start ++ endIssues "end" stop)), σ)) ∧
      (endIssues "start" start = [] ↔ ∃ m : Nat, start.Reads m) ∧
      (endIssues "end" stop = [] ↔ ∃ n : Nat, stop.Reads n)) ∧
    ∀ w τ, (toByteRange v).perform σ = (.ok w, τ) →
      τ.IsByteRange w ∧ (toByteRange w).perform τ = (.ok w, τ) := by
  refine ⟨⟨?_, ?_⟩, toByteRange_of_isByteRange, fun start stop hspans => ?_, fun w τ h => ?_⟩
  · rintro ⟨w, τ, h⟩
    exact (isByteRange_of_toByteRange h).1
  · rintro (hrecord | ⟨start, stop, hspans, m, n, hm, hn⟩)
    · exact ⟨_, _, toByteRange_of_isByteRange hrecord⟩
    · exact ⟨_, _, toByteRange_of_reads hspans hm hn⟩
  · exact ⟨fun m n => toByteRange_of_reads hspans,
      fun hreads => toByteRange_of_issues hspans (mt endIssues_append_eq_nil_iff.1 hreads),
      endIssues_eq_nil_iff, endIssues_eq_nil_iff⟩
  · have hw := (isByteRange_of_toByteRange h).2
    exact ⟨hw, toByteRange_of_isByteRange hw⟩

/-- The bounds of a part from below zero to what is no number, and a list of two ends, of which the
first is spelled out and lies behind the second. -/
def endsStore : Store where
  cells := [.slice (.int (-1)) (.text "x") .none, .list [.text " +1_0 ", .bool true]]
  nans := 0
  carried := []

/-- Both ends of the part are at fault, and both are listed. The list is taken with its ends in the
order in which they are given, and what it becomes is not converted again. -/
theorem toByteRange_accepted_ends :
    (toByteRange (.object 0)).perform endsStore = (.error (.invalid "ByteRange"
      [⟨[.field "start"], .negative⟩, ⟨[.field "end"], .unreadableInteger⟩]), endsStore) ∧
    ∃ τ, (toByteRange (.object 1)).perform endsStore = (.ok (.object 2), τ) ∧
      τ.get? 2 = some (.byteRange ⟨.int 10, .int 1⟩) ∧
      (toByteRange (.object 2)).perform τ = (.ok (.object 2), τ) := by
  obtain ⟨-, -, hpart, -⟩ := toByteRange_accepted endsStore (.object 0)
  obtain ⟨-, -, hlist, hagain⟩ := toByteRange_accepted endsStore (.object 1)
  have hissues : endIssues "start" (.int (-1)) ++ endIssues "end" (.text "x") =
      [⟨[.field "start"], .negative⟩, ⟨[.field "end"], .unreadableInteger⟩] := rfl
  constructor
  · have hcell : endsStore.cell? (.object 0) = some (.slice (.int (-1)) (.text "x") .none) := rfl
    have hspans := Spans.slice hcell (.inl rfl) (by simp)
    rw [if_neg (by simp)] at hspans
    have hunread : ¬ ∃ m n : Nat, (Value.int (-1)).Reads m ∧ (Value.text "x").Reads n := by
      rw [← endIssues_append_eq_nil_iff, hissues]
      simp
    obtain ⟨-, hinvalid, -⟩ := hpart _ _ hspans
    rw [hinvalid hunread, hissues]
  · have hstart : (Value.text " +1_0 ").Reads 10 :=
      .text rfl (Lenient.read_eq_ok_iff.1 rfl)
    obtain ⟨htaken, -⟩ := hlist _ _ (.list rfl)
    have hone := htaken 10 1 hstart (.bool true)
    exact ⟨_, hone, rfl, (hagain _ _ hone).2⟩

end Record

end Diagnostics
