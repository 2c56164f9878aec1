import Diagnostics.Proofs.Action.Calm
import Diagnostics.Proofs.Exchange.Written
import Diagnostics.Proofs.Json.Numbers
import Diagnostics.Proofs.Store.WellFormed

/-!
# What well-formed diagnostics compute

What is computed from the fields of a diagnostic may fail where a field holds something that it was
not declared for. In a well-formed store it does not. Each label then has a style and a start, and
they are all that is asked for (`Mark`). The labels of a style are those that are marked with it
(`read_primaryLabels`, `read_secondaryLabels`), and the position is the least start among the marks
of the highest rank (`read_position`), which is there as soon as there is any label
(`Mark.exists_position`).
-/

namespace Diagnostics

variable {σ : Store} {l : Loc}

/-! ## Marks -/

/-- A label with its style and its start. -/
structure Mark where
  label : Value
  style : LabelStyle
  start : Nat

namespace Mark

/-- The weight of the style of a label. -/
def rank (m : Mark) : Int := m.style.rank

/-- The starts of the labels of one rank. -/
def startsOf (rank : Int) (ms : List Mark) : List Nat :=
  (ms.filter (·.rank = rank)).map start

/-- The least start among the labels of the highest rank. -/
def position? (ms : List Mark) : Option Nat :=
  (ms.map rank).max?.bind fun top => (startsOf top ms).min?

/-- Wherever there are labels, one of them has the highest rank. -/
theorem exists_position {ms : List Mark} (hms : ms ≠ []) : ∃ n, position? ms = some n := by
  rcases htop : (ms.map rank).max? with _ | top
  · exact absurd (List.map_eq_nil_iff.1 (List.max?_eq_none_iff.1 htop)) hms
  · obtain ⟨m, hm, hrank⟩ := List.mem_map.1 (List.max?_mem htop)
    have hstart : m.start ∈ startsOf top ms :=
      List.mem_map_of_mem (List.mem_filter.2 ⟨hm, by simpa using hrank⟩)
    rcases hleast : (startsOf top ms).min? with _ | n
    · rw [List.min?_eq_none_iff.1 hleast] at hstart
      cases hstart
    · exact ⟨n, by rw [position?, htop]; exact hleast⟩

end Mark

/-- Whether a label has the style and the start that it is marked with. -/
structure Store.Marks (σ : Store) (m : Mark) : Prop where
  style : (Attribute.stored m.label "style").perform σ = (.ok (.style m.style), σ)
  start : ∃ range, (Attribute.stored m.label "range").perform σ = (.ok range, σ) ∧
    (Attribute.stored range "start").perform σ = (.ok (.int m.start), σ)

namespace Store

/-- A label of a well-formed store can be marked with its style and its start. -/
theorem IsWellFormed.exists_mark (h : σ.IsWellFormed) {v : Value} (hv : σ.IsLabel v) :
    ∃ m : Mark, m.label = v ∧ σ.Marks m := by
  obtain ⟨f, hf⟩ := hv
  obtain ⟨l, rfl, hl⟩ := exists_of_cell? hf
  obtain ⟨⟨s, hs⟩, ⟨r, hr⟩, -⟩ := h.records l _ hl
  obtain ⟨k, hrange, hk⟩ := exists_of_cell? hr
  obtain ⟨⟨n, hn⟩, -⟩ := h.records k _ hk
  refine ⟨⟨.object l, s, n⟩, rfl, ?_, .object k, ?_, ?_⟩
  · exact Exchange.perform_stored hl rfl (congrArg some hs)
  · exact Exchange.perform_stored hl rfl (congrArg some hrange)
  · exact Exchange.perform_stored hk rfl (congrArg some hn)

/-- All labels of a diagnostic can be marked. -/
theorem IsWellFormed.exists_marks (h : σ.IsWellFormed) {vs : List Value}
    (hvs : ∀ v ∈ vs, σ.IsLabel v) : ∃ ms : List Mark, ms.map Mark.label = vs ∧
      ∀ m ∈ ms, σ.Marks m := by
  induction vs with
  | nil => exact ⟨[], rfl, List.forall_mem_nil _⟩
  | cons v vs ih =>
    obtain ⟨hv, hrest⟩ := List.forall_mem_cons.1 hvs
    obtain ⟨m, hlabel, hm⟩ := h.exists_mark hv
    obtain ⟨ms, hlabels, hms⟩ := ih hrest
    exact ⟨m :: ms, by rw [List.map_cons, hlabel, hlabels], List.forall_mem_cons.2 ⟨hm, hms⟩⟩

end Store

/-! ## Going through labels -/

open Diagnostics.Action

namespace Action

/-- The elements of a list are used one at a time, and the list stays as it is. -/
theorem perform_takeEach_list {α β : Type} {items : List Value}
    (hl : σ.get? l = some (.list items)) {f : Value → Action β} {p : α → Value} {g : α → β}
    {as : List α} (hf : ∀ a ∈ as, (f (p a)).perform σ = (.ok (g a), σ)) :
    (takeEach (.object l) f (as.map p)).perform σ = (.ok (as.map g), σ) := by
  induction as with
  | nil => rfl
  | cons a as ih =>
    obtain ⟨ha, has⟩ := List.forall_mem_cons.1 hf
    rw [List.map_cons, takeEach, perform_bind_of_ok _ (perform_leave _ _ _),
      Store.leave_list hl, perform_bind_of_ok _ ha, perform_bind_of_ok _ (ih has)]
    rfl

/-- What succeeds is not performed once more. -/
theorem perform_again {α : Type} {a : Action α} {x : α} {τ : Store}
    (h : a.perform σ = (.ok x, τ)) : a.again.perform σ = (.ok x, τ) := by
  simp only [perform, again, ExceptT.run, StateT.run] at h ⊢
  rw [h]

end Action

theorem Data.relate_int (r : Relation) (a b : Int) :
    relate r (.int a) (.int b) = .ok (r.holds (compare a b)) := by
  have horder : (Binary64.ofInt a).order (.ofInt b) = some (compare a b) := by
    simp [Binary64.ofInt, Binary64.order, Digits.signed_natAbs, Binary64.power]
  simp [relate, relatePlain, asNumber?, horder]

namespace Attribute

open Exchange

variable {ms : List Mark}

/-- The rank of a label is that of its style. -/
theorem perform_styleRank {m : Mark} (h : σ.Marks m) :
    (styleRank m.label).perform σ = (.ok (.int m.rank), σ) := by
  rw [styleRank, perform_bind_of_ok _ h.style]
  rfl

/-- The labels of a style are those that are marked with it. -/
theorem perform_labelsOf (hl : σ.get? l = some (.list (ms.map Mark.label)))
    (hms : ∀ m ∈ ms, σ.Marks m) (style : LabelStyle) :
    (labelsOf style (.object l)).perform σ =
      (.ok ((ms.filter (·.style = style)).map Mark.label), σ) := by
  have hstyles := perform_takeEach_list hl (f := (stored · "style"))
    (g := fun m => Value.style m.style) fun m hm => (hms m hm).style
  rw [labelsOf, perform_bind_of_ok _ (perform_elements_list hl), perform_bind_of_ok _ hstyles,
    perform_pure]
  congr 2
  clear hl hms hstyles
  induction ms with
  | nil => rfl
  | cons m ms ih =>
    by_cases hm : m.style = style <;> simp_all

/-- The top rank is the highest of those marked. -/
theorem perform_topRank (hl : σ.get? l = some (.list (ms.map Mark.label)))
    (hms : ∀ m ∈ ms, σ.Marks m) {top : Int} (htop : (ms.map Mark.rank).max? = some top) :
    (topRank (.object l)).perform σ = (.ok top, σ) := by
  have hranks := perform_takeEach_list hl (f := styleRank) (g := fun m => Value.int m.rank)
    fun m hm => perform_styleRank (hms m hm)
  have hints : (ms.map fun m => Value.int m.rank).filterMap Value.asInt? = ms.map Mark.rank := by
    simp [List.filterMap_map, Function.comp_def, Value.asInt?]
  rw [topRank, perform_bind_of_ok _ (perform_elements_list hl), perform_bind_of_ok _ hranks, hints]
  cases hlist : ms.map Mark.rank with
  | nil =>
    rw [hlist] at htop
    cases htop
  | cons rank ranks =>
    rw [hlist, List.max?_cons'] at htop
    cases htop
    rfl

/-- The lesser of two starts is the less offset. -/
theorem perform_lesser (k n : Nat) :
    (lesser (some (.int k)) (.int n)).perform σ = (.ok (.int (min k n : Nat)), σ) := by
  have hview : ∀ i : Int, (view (.int i)).perform σ = (.ok (.int i), σ) :=
    fun i => perform_view σ (Store.view_int σ i)
  rw [lesser, perform_bind_of_ok _ (hview n), perform_bind_of_ok _ (hview k), Data.relate_int,
    perform_bind_of_ok _ (perform_ofExcept _ _), perform_pure]
  rcases Nat.lt_or_ge n k with h | h
  · have hless : compare (n : Int) k = .lt := Int.compare_eq_lt.2 (Int.ofNat_lt.2 h)
    rw [hless, Nat.min_eq_right (Nat.le_of_lt h)]
    rfl
  · have hless : compare (n : Int) k ≠ .lt := fun hlt =>
      absurd (Int.ofNat_lt.1 (Int.compare_eq_lt.1 hlt)) (Nat.not_lt.2 h)
    have hholds : Relation.holds .lt (compare (n : Int) k) = false := by
      simpa [Relation.holds] using hless
    rw [hholds, Nat.min_eq_left h]
    rfl

/-- The least of a start from before, if there is one, and of the starts of one rank. -/
theorem perform_leastStart {items : List Value} (hl : σ.get? l = some (.list items))
    (hms : ∀ m ∈ ms, σ.Marks m) (rank : Int) (least? : Option Nat) {n : Nat}
    (hn : (least?.toList ++ Mark.startsOf rank ms).min? = some n) :
    (leastStart (.object l) rank (least?.map fun k : Nat => .int k) (ms.map Mark.label)).perform σ =
      (.ok (.int n), σ) := by
  induction ms generalizing least? with
  | nil =>
    cases least? with
    | none => cases hn
    | some k =>
      cases hn
      rfl
  | cons m ms ih =>
    obtain ⟨hm, hms⟩ := List.forall_mem_cons.1 hms
    rw [List.map_cons, leastStart, perform_bind_of_ok _ (perform_leave _ _ _),
      Store.leave_list hl, perform_bind_of_ok _ (perform_styleRank hm), Value.asInt?]
    by_cases hrank : m.rank = rank
    · obtain ⟨range, hrange, hstart⟩ := hm.start
      rw [if_pos (congrArg some hrank), perform_bind_of_ok _ hrange, perform_bind_of_ok _ hstart]
      rw [Mark.startsOf, List.filter_cons_of_pos (by simpa using hrank)] at hn
      cases least? with
      | none => exact ih hms (some m.start) hn
      | some k =>
        rw [Option.map_some, perform_bind_of_ok _ (perform_lesser k m.start)]
        exact ih hms (some (min k m.start)) hn
    · rw [if_neg (fun h => hrank (Option.some.inj h))]
      rw [Mark.startsOf, List.filter_cons_of_neg (by simpa using hrank)] at hn
      exact ih hms least? hn

/-- **Positions.** The position is the least start among the labels of the highest rank. -/
theorem perform_positionOf (hl : σ.get? l = some (.list (ms.map Mark.label)))
    (hms : ∀ m ∈ ms, σ.Marks m) :
    (positionOf (.object l)).perform σ =
      (.ok (((Mark.position? ms).map fun n : Nat => .int n).getD .none), σ) := by
  have hget : (get : Action Store).perform σ = (.ok σ, σ) := rfl
  rw [positionOf, perform_bind_of_ok _ hget]
  cases ms with
  | nil =>
    rw [if_neg (by simp [isTrue, Value.asText?, Store.cell?, hl, Cell.items?])]
    rfl
  | cons m ms =>
    rw [if_pos (by simp [isTrue, Value.asText?, Store.cell?, hl, Cell.items?])]
    obtain ⟨n, hn⟩ := Mark.exists_position (List.cons_ne_nil m ms)
    obtain ⟨top, htop, hleast⟩ := Option.bind_eq_some_iff.1 hn
    rw [perform_bind_of_ok _ (perform_topRank hl hms htop),
      perform_bind_of_ok _ (perform_elements_list hl), hn]
    exact perform_leastStart hl hms top none hleast

/-! ## Reading diagnostics -/

section Read

variable {d : DiagnosticFields} {k : Loc}

/-- The labels of one style are given in a new list. -/
theorem perform_new_labelsOf (hd : d.labels = .object k)
    (hk : σ.get? k = some (.list (ms.map Mark.label))) (hms : ∀ m ∈ ms, σ.Marks m)
    (style : LabelStyle) :
    (do Action.new (.list (← (labelsOf style d.labels).again)) : Action Value).perform σ =
      (.ok (.object σ.size),
        (σ.alloc (.list ((ms.filter (·.style = style)).map Mark.label))).2) := by
  rw [hd, perform_bind_of_ok _ (perform_again (perform_labelsOf hk hms style)), perform_new]

/-- The primary labels are those marked as primary, in order, in a new list. -/
theorem read_primaryLabels (hl : σ.get? l = some (.diagnostic d)) (hd : d.labels = .object k)
    (hk : σ.get? k = some (.list (ms.map Mark.label))) (hms : ∀ m ∈ ms, σ.Marks m) :
    (read (.object l) "primary_labels").perform σ =
      (.ok (.object σ.size),
        (σ.alloc (.list ((ms.filter (·.style = .primary)).map Mark.label))).2) := by
  have hcell : σ.cell? (.object l) = some (.diagnostic d) := hl
  rw [read, perform_bind_of_ok _ (perform_cell? _ _), hcell]
  exact perform_new_labelsOf hd hk hms .primary

/-- The secondary labels are those marked as secondary, in order, in a new list. -/
theorem read_secondaryLabels (hl : σ.get? l = some (.diagnostic d)) (hd : d.labels = .object k)
    (hk : σ.get? k = some (.list (ms.map Mark.label))) (hms : ∀ m ∈ ms, σ.Marks m) :
    (read (.object l) "secondary_labels").perform σ =
      (.ok (.object σ.size),
        (σ.alloc (.list ((ms.filter (·.style = .secondary)).map Mark.label))).2) := by
  have hcell : σ.cell? (.object l) = some (.diagnostic d) := hl
  rw [read, perform_bind_of_ok _ (perform_cell? _ _), hcell]
  exact perform_new_labelsOf hd hk hms .secondary

/-- The position is computed from the marks: none where there is no label. -/
theorem read_position (hl : σ.get? l = some (.diagnostic d)) (hd : d.labels = .object k)
    (hk : σ.get? k = some (.list (ms.map Mark.label))) (hms : ∀ m ∈ ms, σ.Marks m) :
    (read (.object l) "position").perform σ =
      (.ok (((Mark.position? ms).map fun n : Nat => .int n).getD .none), σ) := by
  have hcell : σ.cell? (.object l) = some (.diagnostic d) := hl
  rw [read, perform_bind_of_ok _ (perform_cell? _ _), hcell]
  simp only [hd]
  exact perform_again (perform_positionOf hk hms)

end Read

end Attribute

end Diagnostics
