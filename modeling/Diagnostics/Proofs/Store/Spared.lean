import Diagnostics.Proofs.Store.Extends
import Diagnostics.Proofs.Store.Reach

/-!
# Objects that are spared

What happens to a store can leave some of its objects alone, say those of a diagnostic that somebody
else still looks at. A value is clear of them when it owns none of them (`Store.IsClear`), and they
are spared when they hold and carry what they did and what was clear of them still is
(`Store.Spares`). The files of labels do not count: nobody gets to what they hold by way of a label.

An object that is none of them may be given new values (`Spares.update`), as long as these are ones
it held before or ones that are clear. So the objects are spared by whatever works on clear values
only, step after step (`Spares.trans`).
-/

namespace Diagnostics.Store

variable {σ τ ρ : Store} {P : Loc → Prop} {v w : Value} {k l : Loc} {c c' : Cell}
  {vs : List Value}

/-! ## Clear values -/

/-- Whether a value owns only objects that are there, and none of some. -/
def IsClear (σ : Store) (P : Loc → Prop) (v : Value) : Prop :=
  ∀ k, σ.Owns v k → k < σ.size ∧ ¬ P k

theorem isClear_of_ne_object (h : ∀ l, v ≠ .object l) : σ.IsClear P v := by
  intro k hk
  obtain ⟨l, rfl⟩ := hk.exists_object
  exact absurd rfl (h l)

/-- What a clear object has as its own is clear. -/
theorem IsClear.of_mem (h : σ.IsClear P (.object l)) (hl : σ.get? l = some c) (hv : v ∈ c.own) :
    σ.IsClear P v :=
  fun k hk => h k (.through hl hv hk)

theorem IsClear.not_mem (h : σ.IsClear P (.object l)) : ¬ P l := (h l (.here l)).2

/-- What is clear stays so when objects are made. -/
theorem IsClear.grows (h : σ.IsClear P v) (hστ : σ.Grows τ) : τ.IsClear P v := by
  intro k hk
  have hold : σ.Owns v k := hk.of_grows hστ fun k hk => (h k hk).1
  exact ⟨Nat.lt_of_lt_of_le (h k hold).1 hστ.size_le, (h k hold).2⟩

/-- Other values in an object, each of which is clear or was there before, lead nowhere new. -/
theorem IsClear.update (hv : σ.IsClear P v) (hl : σ.get? l = some c)
    (hc' : ∀ w ∈ c'.own, w ∈ c.own ∨ σ.IsClear P w) : (σ.update l c').IsClear P v := by
  intro k hk
  rw [size_update]
  induction hk with
  | here k => exact hv k (.here k)
  | @through m x w k cell mem _ ih =>
    rw [get?_update hl] at cell
    split at cell
    · next hm =>
      subst hm
      obtain rfl := Option.some.inj cell
      rcases hc' w mem with hw | hw
      · exact ih (hv.of_mem hl hw)
      · exact ih hw
    · exact ih (hv.of_mem cell mem)

/-! ## What is spared -/

/-- Whether some objects stayed as they were from one store to another, and what was clear of them
still is. Sequences of fixed length stay as well. -/
structure Spares (P : Loc → Prop) (σ τ : Store) : Prop where
  size_le : σ.size ≤ τ.size
  get?_eq : ∀ k, P k → τ.get? k = σ.get? k
  carried?_eq : ∀ k, P k → ∀ name, τ.carried? (.object k) name = σ.carried? (.object k) name
  fixed : ∀ k vs, σ.get? k = some (.tuple vs) → τ.get? k = some (.tuple vs)
  clear : ∀ v, σ.IsClear P v → τ.IsClear P v

theorem Spares.refl (P : Loc → Prop) (σ : Store) : σ.Spares P σ :=
  ⟨Nat.le_refl _, fun _ _ => rfl, fun _ _ _ => rfl, fun _ _ h => h, fun _ h => h⟩

theorem Spares.trans (h : σ.Spares P τ) (h' : τ.Spares P ρ) : σ.Spares P ρ where
  size_le := Nat.le_trans h.size_le h'.size_le
  get?_eq k hk := (h'.get?_eq k hk).trans (h.get?_eq k hk)
  carried?_eq k hk name := (h'.carried?_eq k hk name).trans (h.carried?_eq k hk name)
  fixed k vs hk := h'.fixed k vs (h.fixed k vs hk)
  clear v hv := h'.clear v (h.clear v hv)

/-- Objects that are spared are still there. -/
theorem Spares.lt_size (h : σ.Spares P τ) (hP : ∀ k, P k → k < σ.size) : ∀ k, P k → k < τ.size :=
  fun k hk => Nat.lt_of_lt_of_le (hP k hk) h.size_le

/-- New objects are none of those that were there. -/
theorem Extends.spares (h : σ.Extends τ) (hP : ∀ k, P k → k < σ.size) : σ.Spares P τ where
  size_le := h.grows.size_le
  get?_eq k hk := by
    obtain ⟨c, hc⟩ : ∃ c, σ.get? k = some c := ⟨_, List.getElem?_eq_getElem (hP k hk)⟩
    rw [hc, h.grows.get? hc]
  carried?_eq k hk := h.carried?_eq k (hP k hk)
  fixed k vs hk := h.grows.get? hk
  clear v hv := hv.grows h.grows

theorem Spares.carry (hl : ¬ P l) (name : String) (w : Value) :
    σ.Spares P (σ.carry (.object l) name w) := by
  have same : ∀ k, (σ.carry (.object l) name w).get? k = σ.get? k := fun _ => rfl
  refine ⟨Nat.le_refl _, fun k _ => same k, fun k hk other => ?_, fun k vs hk => hk, ?_⟩
  · refine carried?_carry (fun heq => hl ?_) other name w
    rwa [← Value.object.inj heq]
  · intro v hv k hk
    exact hv k (hk.of_same fun m c _ hm => (same m).symm.trans hm)

/-- **Updates.** An object that is none of those that are spared may be given clear values. -/
theorem Spares.update (hl : σ.get? l = some c) (hPl : ¬ P l) (hfixed : ∀ vs, c ≠ .tuple vs)
    (hc' : ∀ w ∈ c'.own, w ∈ c.own ∨ σ.IsClear P w) : σ.Spares P (σ.update l c') where
  size_le := Nat.le_of_eq (size_update σ l c').symm
  get?_eq k hk := by
    rw [get?_update hl, if_neg]
    rintro rfl
    exact hPl hk
  carried?_eq _ _ _ := rfl
  fixed k vs hk := by
    rw [get?_update hl, if_neg, hk]
    rintro rfl
    rw [hl] at hk
    exact hfixed vs (Option.some.inj hk)
  clear v hv := hv.update hl hc'

/-! ## Elements -/

/-- A one-shot sequence that is clear is left with clear elements. -/
theorem Spares.leave (hv : σ.IsClear P v) (hvs : ∀ w ∈ vs, σ.IsClear P w) :
    σ.Spares P (σ.leave v vs) := by
  rw [Store.leave.eq_def]
  split
  · next l before hl => exact .update hl hv.not_mem (by simp) fun w hw => .inr (hvs w hw)
  · exact .refl P σ

/-- Each pair is a new object. -/
theorem exists_of_mem_pairs {fields : List (String × Value)} (hw : w ∈ (σ.pairs fields).1) :
    ∃ l name u, w = .object l ∧ σ.size ≤ l ∧ (name, u) ∈ fields ∧
      (σ.pairs fields).2.get? l = some (.tuple [.text name, u]) := by
  induction fields generalizing σ with
  | nil => cases hw
  | cons field fields ih =>
    obtain ⟨name, u⟩ := field
    rcases List.mem_cons.1 hw with rfl | hw
    · refine ⟨σ.size, name, u, rfl, Nat.le_refl _, List.mem_cons_self, ?_⟩
      exact (Extends.pairs (σ.alloc _).2 fields).grows.get? (get?_alloc_self σ _)
    · obtain ⟨l, other, u', rfl, hle, hmem, hl⟩ := ih hw
      have hsize := (Grows.alloc σ (.tuple [.text name, u])).size_le
      exact ⟨l, other, u', rfl, Nat.le_trans hsize hle, List.mem_cons_of_mem _ hmem, hl⟩

/-- Where elements come from: they are no objects, or a cell holds them, or they are the pairs of a
record. -/
theorem mem_of_elements? (h : σ.elements? v = some (vs, τ)) (hw : w ∈ vs) :
    (∀ l, w ≠ .object l) ∨
      (∃ l c, v = .object l ∧ σ.get? l = some c ∧ c.fields? = none ∧ w ∈ c.held ∧ τ = σ) ∨
      ∃ l c fields, v = .object l ∧ σ.get? l = some c ∧ c.fields? = some fields ∧
        σ.pairs fields = (vs, τ) := by
  have plain : ∀ {α} {f : α → Value} {xs : List α}, (∀ x l, f x ≠ .object l) → w ∈ xs.map f →
      ∀ l, w ≠ .object l := by
    intro α f xs hf hmem l hl
    obtain ⟨x, -, rfl⟩ := List.mem_map.1 hmem
    exact hf x l hl
  rw [elements?.eq_def] at h
  split at h
  · cases h
    exact .inl (plain (by simp) hw)
  · cases h
    exact .inl (plain (by simp) hw)
  · next l _ =>
    split at h
    · cases h
    · next c hl =>
      split at h
      · next items _ hitems =>
        cases h
        cases c with
        | list | tuple | set | iterator =>
          cases hitems
          exact .inr (.inl ⟨l, _, rfl, hl, rfl, hw, rfl⟩)
        | range | table | buffer =>
          cases hitems
          exact .inl (plain (by simp) hw)
        | slice | byteRange | label | diagnostic => cases hitems
      · next fields _ hfields =>
        exact .inr (.inr ⟨l, c, fields, rfl, hl, hfields, Option.some.inj h⟩)
      · cases h
  · cases h

/-- The values of the fields of a record are its own, but for the file of a label. -/
theorem mem_own_of_fields? {fields : List (String × Value)} (h : c.fields? = some fields)
    {e : String × Value} (he : e ∈ fields) :
    e.2 ∈ c.own ∨ ∃ f, c = .label f ∧ e.2 = f.fileId := by
  cases c with
  | byteRange r | diagnostic d =>
    obtain rfl := Option.some.inj h
    simp only [List.mem_cons, List.not_mem_nil, or_false] at he
    rcases he with rfl | rfl | rfl | rfl | rfl <;> exact .inl (by simp [Cell.own, Cell.held])
  | label f =>
    obtain rfl := Option.some.inj h
    simp only [List.mem_cons, List.not_mem_nil, or_false] at he
    rcases he with rfl | rfl | rfl | rfl
    · exact .inl (by simp [Cell.own])
    · exact .inr ⟨f, rfl, rfl⟩
    · exact .inl (by simp [Cell.own])
    · exact .inl (by simp [Cell.own])
  | _ => cases h

/-- Whether a value is clear, and what it gives one by one is so too: a label gives its file. -/
def GivesClear (σ : Store) (P : Loc → Prop) (v : Value) : Prop :=
  σ.IsClear P v ∧ ∀ f, σ.cell? v = some (.label f) → σ.IsClear P f.fileId

/-- What a value gives that is clear is clear too, or the value is a record and gives pairs. -/
theorem IsClear.elements? (hv : σ.IsClear P v) (h : σ.elements? v = some (vs, τ)) :
    (∀ w ∈ vs, τ.IsClear P w) ∨ (∃ c, τ.cell? v = some c ∧ c.fields?.isSome) ∧
      ∀ w ∈ vs, ∀ c, τ.cell? w = some c → ∃ items, c = .tuple items := by
  by_cases hrecord : ∃ l c fields, v = .object l ∧ σ.get? l = some c ∧ c.fields? = some fields
  · obtain ⟨l, c, fields, rfl, hl, hfields⟩ := hrecord
    refine .inr ⟨⟨c, (Extends.of_elements? h).grows.get? hl, by rw [hfields]; rfl⟩, ?_⟩
    intro w hw c' hc'
    rcases mem_of_elements? h hw with hplain | ⟨k, d, hk, hd, hnone, -, -⟩ |
      ⟨k, d, others, -, -, -, hpairs⟩
    · obtain ⟨k, rfl, -⟩ := exists_of_cell? hc'
      exact absurd rfl (hplain k)
    · obtain rfl := Value.object.inj hk
      obtain rfl := Option.some.inj (hl.symm.trans hd)
      cases hfields.symm.trans hnone
    · have hmem : w ∈ (σ.pairs others).1 := by rwa [hpairs]
      obtain ⟨m, name, u, rfl, -, -, hm⟩ := exists_of_mem_pairs hmem
      rw [hpairs] at hm
      exact ⟨_, Option.some.inj (hc'.symm.trans hm)⟩
  · refine .inl fun w hw => ?_
    rcases mem_of_elements? h hw with hplain | ⟨l, c, rfl, hl, hc, hmem, rfl⟩ |
      ⟨l, c, fields, hl, hc, hfields, -⟩
    · exact isClear_of_ne_object hplain
    · refine hv.of_mem hl ?_
      cases c with
      | label => cases hc
      | _ => exact hmem
    · exact absurd ⟨l, c, fields, hl, hc, hfields⟩ hrecord

/-- **Elements.** What a value gives is clear, if the file that it may give is. -/
theorem GivesClear.elements? (hv : σ.GivesClear P v) (hP : ∀ k, P k → k < σ.size)
    (h : σ.elements? v = some (vs, τ)) : ∀ w ∈ vs, τ.IsClear P w := by
  intro w hw
  rcases mem_of_elements? h hw with hplain | ⟨l, c, rfl, hl, hc, hmem, rfl⟩ |
    ⟨l, c, fields, rfl, hl, hfields, hpairs⟩
  · exact isClear_of_ne_object hplain
  · refine hv.1.of_mem hl ?_
    cases c with
    | label => cases hc
    | _ => exact hmem
  · have hmem : w ∈ (σ.pairs fields).1 := by rwa [hpairs]
    obtain ⟨k, name, u, rfl, hle, hu, hk⟩ := exists_of_mem_pairs hmem
    rw [hpairs] at hk
    have hclear : σ.IsClear P u := by
      rcases mem_own_of_fields? hfields hu with hown | ⟨f, rfl, hfile⟩
      · exact hv.1.of_mem hl hown
      · obtain rfl : u = f.fileId := hfile
        exact hv.2 f hl
    -- a pair is new, and leads where the value of its field leads
    rintro m (_ | ⟨cell, mem, rest⟩)
    · exact ⟨lt_size_of_get? hk, fun hPk => Nat.not_lt.2 hle (hP _ hPk)⟩
    · rw [hk] at cell
      cases cell
      simp only [Cell.own, Cell.held, List.mem_cons, List.not_mem_nil, or_false] at mem
      rcases mem with rfl | rfl
      · exact isClear_of_ne_object (by simp) m rest
      · exact hclear.grows (Extends.of_elements? h).grows m rest

end Diagnostics.Store
