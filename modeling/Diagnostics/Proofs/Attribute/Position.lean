import Diagnostics.Proofs.Builder.Equivalent
import Diagnostics.Proofs.Builder.OneByOne

/-!
# The position of a diagnostic

The labels of a diagnostic fall into primary and secondary ones. Its position is a start of highest
rank, and of these the least (`Part.PositionIs`). So it depends on which labels there are and not on
their order, and as soon as one of them is primary no secondary label changes it
(`Mark.position?_of_perm_append`), however the labels get into the list (`position_of_labels`).
-/

namespace Diagnostics

variable {σ τ : Store} {v : Value} {vs : List Value} {ps qs : List Part} {p : Part} {l : Loc}
  {d : DiagnosticFields} {a : Anatomy}

open Store Diagnostics.Action

/-! ## Starts of highest rank -/

namespace Mark

variable {ms ns : List Mark} {m : Mark} {n : Nat}

theorem rank_eq_rank {m k : Mark} : m.rank = k.rank ↔ m.style = k.style :=
  ⟨fun h => LabelStyle.rank_injective (Int.ofNat.inj h),
    fun h => congrArg (fun s => (s.rank : Int)) h⟩

theorem mem_startsOf {rank : Int} : n ∈ startsOf rank ms ↔ ∃ m ∈ ms, m.rank = rank ∧ m.start = n := by
  simp [startsOf, and_assoc]

/-- The position is the start of a label that none outranks, and of its rank none starts before it. -/
theorem position?_eq_some_iff : position? ms = some n ↔
    ∃ m ∈ ms, m.start = n ∧ ∀ k ∈ ms, k.rank ≤ m.rank ∧ (k.rank = m.rank → m.start ≤ k.start) := by
  rw [position?, Option.bind_eq_some_iff]
  constructor
  · rintro ⟨top, htop, hleast⟩
    obtain ⟨-, htop⟩ := List.max?_eq_some_iff.1 htop
    obtain ⟨hmem, hleast⟩ := List.min?_eq_some_iff.1 hleast
    obtain ⟨m, hm, rfl, rfl⟩ := mem_startsOf.1 hmem
    refine ⟨m, hm, rfl, fun k hk => ⟨htop _ (List.mem_map_of_mem hk), fun hrank => ?_⟩⟩
    exact hleast _ (mem_startsOf.2 ⟨k, hk, hrank, rfl⟩)
  · rintro ⟨m, hm, rfl, hleast⟩
    refine ⟨m.rank, List.max?_eq_some_iff.2 ⟨List.mem_map_of_mem hm, ?_⟩,
      List.min?_eq_some_iff.2 ⟨mem_startsOf.2 ⟨m, hm, rfl, rfl⟩, ?_⟩⟩
    · exact List.forall_mem_map.2 fun k hk => (hleast k hk).1
    · intro s hs
      obtain ⟨k, hk, hrank, rfl⟩ := mem_startsOf.1 hs
      exact (hleast k hk).2 hrank

theorem position?_eq_none_iff : position? ms = none ↔ ms = [] := by
  refine ⟨fun h => ?_, fun h => h ▸ rfl⟩
  by_contra hne
  obtain ⟨n, hn⟩ := exists_position hne
  exact nomatch h.symm.trans hn

/-- The order of labels does not count, nor how often they are there. -/
theorem position?_congr_mem (h : ∀ m, m ∈ ms ↔ m ∈ ns) : position? ms = position? ns := by
  refine Option.ext fun n => ?_
  rw [position?_eq_some_iff, position?_eq_some_iff]
  simp only [h]

/-- Where there is a primary label, secondary ones do not count. -/
theorem position?_append (hprimary : ∃ m ∈ ms, m.style = .primary)
    (hsecondary : ∀ m ∈ ns, m.style = .secondary) : position? (ms ++ ns) = position? ms := by
  obtain ⟨p, hp, hstyle⟩ := hprimary
  obtain ⟨n, hn⟩ := exists_position (List.ne_nil_of_mem hp)
  rw [hn]
  obtain ⟨m, hm, hstart, hleast⟩ := position?_eq_some_iff.1 hn
  refine position?_eq_some_iff.2 ⟨m, List.mem_append_left _ hm, hstart, fun k hk => ?_⟩
  rcases List.mem_append.1 hk with hk | hk
  · exact hleast k hk
  · -- a secondary label is outranked
    have hrank : k.rank < m.rank := by
      have hp := (hleast p hp).1
      simp only [rank, hstyle, hsecondary k hk, LabelStyle.rank] at hp ⊢
      omega
    exact ⟨hrank.le, fun heq => absurd heq hrank.ne⟩

/-- The position stays when labels are put in another order, and when secondary ones are added to
some of which one is primary. -/
theorem position?_of_perm_append {ks : List Mark} (h : ks.Perm (ms ++ ns))
    (hsecondary : ∀ m ∈ ns, m.style = .secondary)
    (hprimary : ns = [] ∨ ∃ m ∈ ms, m.style = .primary) : position? ks = position? ms := by
  rw [position?_congr_mem fun m => h.mem_iff]
  rcases hprimary with rfl | hprimary
  · rw [List.append_nil]
  · exact position?_append hprimary hsecondary

/-- The primary labels give the position if there are any, and otherwise the secondary ones. -/
theorem position?_eq_or : position? ms =
    (startsOf LabelStyle.primary.rank ms).min?.or (startsOf LabelStyle.secondary.rank ms).min? := by
  rcases hposition : position? ms with _ | n
  · rw [position?_eq_none_iff.1 hposition]
    rfl
  · obtain ⟨m, hm, rfl, hleast⟩ := position?_eq_some_iff.1 hposition
    have hmin : (startsOf m.rank ms).min? = some m.start := by
      refine List.min?_eq_some_iff.2 ⟨mem_startsOf.2 ⟨m, hm, rfl, rfl⟩, fun s hs => ?_⟩
      obtain ⟨k, hk, hrank, rfl⟩ := mem_startsOf.1 hs
      exact (hleast k hk).2 hrank
    rcases hstyle : m.style
    · rw [rank, hstyle] at hmin
      rw [hmin, Option.some_or]
    · have hnone : startsOf LabelStyle.primary.rank ms = [] := by
        refine List.eq_nil_iff_forall_not_mem.2 fun s hs => ?_
        obtain ⟨k, hk, hrank, -⟩ := mem_startsOf.1 hs
        have hle := (hleast k hk).1
        rw [hrank, rank, hstyle] at hle
        exact absurd hle (by decide)
      rw [rank, hstyle] at hmin
      rw [hnone, hmin]
      rfl

end Mark

namespace Part

/-- Whether a value is the position that labels give: none where there is no label, and otherwise the
start of a label that none outranks, and of its rank none starts before it. -/
inductive PositionIs : List Part → Value → Prop
  | none : PositionIs [] .none
  | start {ps : List Part} (p : Part) (mem : p ∈ ps)
    (top : ∀ q ∈ ps, q.style.rank ≤ p.style.rank)
    (first : ∀ q ∈ ps, q.style.rank = p.style.rank → p.bounds.start ≤ q.bounds.start) :
    PositionIs ps (.int p.bounds.start)

/-- The position that labels give. -/
def position (ps : List Part) : Value :=
  ((Mark.position? (ps.map mark)).map fun n : Nat => .int n).getD .none

theorem positionIs_position (ps : List Part) : PositionIs ps (position ps) := by
  rcases hposition : Mark.position? (ps.map mark) with _ | n
  · rw [position, hposition, List.map_eq_nil_iff.1 (Mark.position?_eq_none_iff.1 hposition)]
    exact .none
  · obtain ⟨m, hm, rfl, hleast⟩ := Mark.position?_eq_some_iff.1 hposition
    obtain ⟨p, hp, rfl⟩ := List.mem_map.1 hm
    rw [position, hposition]
    refine .start p hp (fun q hq => ?_) fun q hq hrank => ?_
    · exact Int.ofNat_le.1 (hleast _ (List.mem_map_of_mem hq)).1
    · exact (hleast _ (List.mem_map_of_mem hq)).2 (congrArg Nat.cast hrank)

theorem position_eq_none_iff : position ps = .none ↔ ps = [] := by
  refine ⟨fun h => ?_, fun h => h ▸ rfl⟩
  have hposition := positionIs_position ps
  rw [h] at hposition
  cases hposition
  rfl

/-- The starts of the labels of a style. -/
def startsOf (style : LabelStyle) (ps : List Part) : List Nat :=
  (ps.filter (·.style = style)).map (·.bounds.start)

theorem startsOf_eq (style : LabelStyle) (ps : List Part) :
    startsOf style ps = Mark.startsOf style.rank (ps.map mark) := by
  rw [startsOf, Mark.startsOf, List.filter_map, List.map_map]
  refine congrArg _ (List.filter_congr fun p _ => decide_eq_decide.2 ?_)
  exact (Mark.rank_eq_rank (m := p.mark) (k := ⟨.none, style, 0⟩)).symm

/-- The position is the least start of a primary label, or else of a secondary one. -/
theorem position_eq_or (ps : List Part) : position ps =
    (((startsOf .primary ps).min?.or (startsOf .secondary ps).min?).map
      fun n : Nat => .int n).getD .none := by
  rw [position, Mark.position?_eq_or, startsOf_eq, startsOf_eq]

/-- The position stays when labels are put in another order, and when secondary ones are added to
some of which one is primary. -/
theorem position_of_perm_append {rs : List Part} (h : rs.Perm (ps ++ qs))
    (hsecondary : ∀ q ∈ qs, q.style = .secondary)
    (hprimary : qs = [] ∨ ∃ p ∈ ps, p.style = .primary) : position rs = position ps := by
  have hmarks : (rs.map mark).Perm (ps.map mark ++ qs.map mark) := by
    rw [← List.map_append]
    exact h.map mark
  have hprimary' : qs.map mark = [] ∨ ∃ m ∈ ps.map mark, m.style = .primary := by
    rcases hprimary with rfl | ⟨p, hp, hstyle⟩
    · exact .inl rfl
    · exact .inr ⟨p.mark, List.mem_map_of_mem hp, hstyle⟩
  rw [position, position, Mark.position?_of_perm_append hmarks (List.forall_mem_map.2 hsecondary)
    hprimary']

/-- A label has one style. -/
theorem IsIn.style_eq {q : Part} (hp : p.IsIn σ) (hq : q.IsIn σ) (hlabel : p.label = q.label) :
    p.style = q.style := by
  have hcell := hp.label
  rw [hlabel, hq.label] at hcell
  simp_all

/-- A label stays where it is when nothing but a list changes. -/
theorem IsIn.calmBut {b : Loc} {items : List Value} (h : p.IsIn σ)
    (hb : σ.get? b = some (.list items)) (hτ : σ.CalmBut (· = b) v τ) : p.IsIn τ := by
  have apart : ∀ {k c}, σ.get? k = some c → (∀ items, c ≠ .list items) → k ≠ b := by
    rintro k c hk hc rfl
    exact hc items (Option.some.inj (hk.symm.trans hb))
  exact ⟨hτ.get?_eq (apart h.label nofun) h.label nofun,
    hτ.get?_eq (apart h.range nofun) h.range nofun⟩

end Part

/-! ## Primary and secondary labels -/

/-- Whether a value is a secondary label. -/
def Store.IsSecondary (σ : Store) (v : Value) : Prop :=
  ∃ p : Part, v = .object p.label ∧ p.IsIn σ ∧ p.style = .secondary

namespace Anatomy

/-- The labels of a diagnostic. -/
def labels (a : Anatomy) : List Value := a.parts.map fun p => .object p.label

/-- The labels of a diagnostic that have a style. -/
def labelsOf (style : LabelStyle) (a : Anatomy) : List Value :=
  (a.parts.filter (·.style = style)).map fun p => .object p.label

theorem labelsOf_sublist (style : LabelStyle) (a : Anatomy) : (a.labelsOf style).Sublist a.labels :=
  List.filter_sublist.map _

/-- Each label, as often as it is there, is either primary or secondary. -/
theorem labelsOf_perm (a : Anatomy) :
    (a.labelsOf .primary ++ a.labelsOf .secondary).Perm a.labels := by
  have hsecondary : a.parts.filter (·.style = .secondary) =
      a.parts.filter fun p => !decide (p.style = .primary) := by
    refine List.filter_congr fun p _ => ?_
    cases p.style <;> rfl
  rw [labelsOf, labelsOf, labels, hsecondary, ← List.map_append]
  exact (List.filter_append_perm _ a.parts).map _

theorem mem_labelsOf {style : LabelStyle} : v ∈ a.labelsOf style ↔
    ∃ p ∈ a.parts, p.style = style ∧ v = .object p.label := by
  simp [labelsOf, and_assoc, eq_comm]

theorem labelsOf_ne_nil {style : LabelStyle} :
    a.labelsOf style ≠ [] ↔ ∃ p ∈ a.parts, p.style = style := by
  simp [labelsOf, List.filter_eq_nil_iff]

theorem map_label_filter_marks (style : LabelStyle) (a : Anatomy) :
    ((a.parts.map Part.mark).filter (·.style = style)).map Mark.label = a.labelsOf style := by
  rw [List.filter_map, List.map_map]
  rfl

namespace IsIn

/-- No label is both. -/
theorem disjoint_labelsOf (h : a.IsIn σ) :
    ∀ v ∈ a.labelsOf .primary, v ∉ a.labelsOf .secondary := by
  intro v hprimary hsecondary
  obtain ⟨p, hp, hpstyle, rfl⟩ := mem_labelsOf.1 hprimary
  obtain ⟨q, hq, hqstyle, hlabel⟩ := mem_labelsOf.1 hsecondary
  have hstyle := (h.parts p hp).style_eq (h.parts q hq) (Value.object.inj hlabel)
  rw [hpstyle, hqstyle] at hstyle
  cases hstyle

/-! ## Positions -/

/-- The position of a diagnostic after its list of labels has changed. -/
theorem read_position_after (h : a.IsIn σ) (hτ : σ.CalmBut (· = a.labelList) v τ)
    (hps : ∀ p ∈ ps, p.IsIn σ)
    (hlist : τ.get? a.labelList = some (.list (ps.map fun p => .object p.label))) :
    (Attribute.read (.object a.diagnostic) "position").perform τ = (.ok (Part.position ps), τ) := by
  have hne : a.diagnostic ≠ a.labelList := by
    intro heq
    exact nomatch (heq ▸ h.diagnostic).symm.trans h.labelList
  refine Attribute.read_position (hτ.get?_eq hne h.diagnostic nofun) rfl ?_ ?_
  · rw [List.map_map]
    exact hlist
  · exact List.forall_mem_map.2 fun p hp => ((hps p hp).calmBut h.labelList hτ).marks

/-- The position stays when the labels are put in another order, and when secondary ones come to
them and one of them is primary. -/
theorem read_position_of_perm (h : a.IsIn σ) (hτ : σ.CalmBut (· = a.labelList) v τ)
    {items more : List Value} (hlist : τ.get? a.labelList = some (.list items))
    (hitems : items.Perm (a.labels ++ more)) (hmore : ∀ u ∈ more, σ.IsSecondary u)
    (hprimary : more = [] ∨ a.labelsOf .primary ≠ []) :
    (Attribute.read (.object a.diagnostic) "position").perform τ =
      (.ok (Part.position a.parts), τ) := by
  obtain ⟨qs, hqs⟩ := exists_forall₂ hmore
  have hlabels : List.Forall₂ (fun u p => u = Value.object p.label ∧ p.IsIn σ)
      (a.labels ++ more) (a.parts ++ qs) := by
    refine List.rel_append ?_ (hqs.imp fun u p hp => ⟨hp.1, hp.2.1⟩)
    exact List.forall₂_map_left_iff.2 (List.forall₂_same.2 fun p hp => ⟨rfl, h.parts p hp⟩)
  obtain ⟨rs, hrs, hperm⟩ := List.perm_comp_forall₂ hitems hlabels
  have hitems' : items = rs.map fun p => .object p.label :=
    List.forall₂_eq_eq_eq ▸ List.forall₂_map_right_iff.2 (hrs.imp fun _ _ hp => hp.1)
  have hrs' : ∀ p ∈ rs, p.IsIn σ := by
    intro p hp
    obtain ⟨u, -, -, hp⟩ := exists_of_mem_right hrs hp
    exact hp
  have hsecondary : ∀ q ∈ qs, q.style = .secondary := by
    intro q hq
    obtain ⟨u, -, -, -, hstyle⟩ := exists_of_mem_right hqs hq
    exact hstyle
  have hprimary' : qs = [] ∨ ∃ p ∈ a.parts, p.style = .primary := by
    rcases hprimary with rfl | hprimary
    · exact .inl (List.forall₂_nil_left_iff.1 hqs)
    · exact .inr (labelsOf_ne_nil.1 hprimary)
  rw [hitems'] at hlist
  rw [h.read_position_after hτ hrs' hlist, Part.position_of_perm_append hperm hsecondary hprimary']

/-- Both steps for labels extend the list, if they are not given the list itself. -/
theorem perform_act_labels (h : a.IsIn σ) (hne : v ≠ .object a.labelList) {method : Builder.Method}
    (hfield : method.field = .labels) :
    (method.act (.object a.diagnostic) v).perform σ =
      (Builder.extend (.object a.labelList) v).perform σ := by
  have hplain : (Builder.withLabels (.object a.diagnostic) v).perform σ =
      (Builder.extend (.object a.labelList) v).perform σ := by
    rw [Builder.withLabels, perform_bind_of_ok _ (Builder.perform_receiverFields h.diagnostic _)]
  cases method with
  | labels => exact hplain
  | labelsEach =>
    exact (Builder.perform_withLabels_eq h.diagnostic h.labelList hne).symm.trans hplain
  | _ => cases hfield

/-- The position stays when secondary labels are appended and one of the labels is primary. -/
theorem read_position_of_act (h : a.IsIn σ) (hprimary : a.labelsOf .primary ≠ [])
    {method : Builder.Method} (hfield : method.field = .labels)
    (hv : ∀ vs τ, σ.elements? v = some (vs, τ) → ∀ u ∈ vs, τ.IsSecondary u) :
    (Attribute.read (.object a.diagnostic) "position").perform
        ((method.act (.object a.diagnostic) v).perform σ).2 =
      (.ok (Part.position a.parts), ((method.act (.object a.diagnostic) v).perform σ).2) := by
  rcases helements : σ.elements? v with _ | ⟨vs, τ⟩
  · rw [Builder.perform_act_of_none h.diagnostic h.labelList h.noteList helements (.inl hfield)]
    exact h.read_position
  · have hvs := hv vs τ helements
    have hτ := (Extends.of_elements? helements).grows
    -- the own list has a primary label among its elements
    have hne : v ≠ .object a.labelList := by
      rintro rfl
      rw [elements?_of_object h.labelList] at helements
      obtain ⟨rfl, rfl⟩ := Prod.mk.inj (Option.some.inj helements)
      obtain ⟨p, hp, hstyle⟩ := labelsOf_ne_nil.1 hprimary
      obtain ⟨q, hlabel, hq, hsecondary⟩ := hvs _ (List.mem_map_of_mem hp)
      have heq := (h.parts p hp).style_eq hq (Value.object.inj hlabel)
      rw [hstyle, hsecondary] at heq
      cases heq
    rw [h.perform_act_labels hne hfield, Builder.perform_extend h.labelList helements]
    have hb := get?_leave (hτ.get? h.labelList) v []
    exact (h.grows hτ).read_position_of_perm
      ((calmBut_leave _ τ v []).trans (calmBut_update (T := (· = a.labelList)) rfl v _))
      (get?_update_self _ _ (lt_size_of_get? hb)) (.refl _) hvs (.inr hprimary)

end IsIn

end Anatomy

namespace Attribute

/-- **Positions.** The labels of a sound diagnostic fall into primary and secondary ones. The position
is the least start of highest rank, whatever the ends. It stays when the labels are put in another
order, and when secondary ones come to them and one of them is primary, also by a step that appends
them. -/
theorem position_of_labels (hd : σ.get? l = some (.diagnostic d)) (hsound : σ.IsSound (.object l)) :
    (∃ a : Anatomy, a.diagnostic = l ∧ a.IsIn σ) ∧
    ∀ a : Anatomy, a.diagnostic = l → a.IsIn σ →
      ((read (.object l) "primary_labels").perform σ =
          (.ok (.object σ.size), (σ.alloc (.list (a.labelsOf .primary))).2) ∧
        (read (.object l) "secondary_labels").perform σ =
          (.ok (.object σ.size), (σ.alloc (.list (a.labelsOf .secondary))).2)) ∧
      ((∀ style, (a.labelsOf style).Sublist a.labels) ∧
        (a.labelsOf .primary ++ a.labelsOf .secondary).Perm a.labels ∧
        ∀ v ∈ a.labelsOf .primary, v ∉ a.labelsOf .secondary) ∧
      ∃ w, (read (.object l) "position").perform σ = (.ok w, σ) ∧
        (w = .none ↔ a.labels = []) ∧ Part.PositionIs a.parts w ∧
        w = (((Part.startsOf .primary a.parts).min?.or (Part.startsOf .secondary a.parts).min?).map
          fun n : Nat => .int n).getD .none ∧
        (∀ items more, items.Perm (a.labels ++ more) → (∀ u ∈ more, σ.IsSecondary u) →
          more = [] ∨ a.labelsOf .primary ≠ [] →
          (read (.object l) "position").perform (σ.update a.labelList (.list items)) =
            (.ok w, σ.update a.labelList (.list items))) ∧
        (∀ (method : Builder.Method) v, method.field = .labels → a.labelsOf .primary ≠ [] →
          (∀ vs τ, σ.elements? v = some (vs, τ) → ∀ u ∈ vs, τ.IsSecondary u) →
          (read (.object l) "position").perform ((method.act (.object l) v).perform σ).2 =
            (.ok w, ((method.act (.object l) v).perform σ).2)) := by
  refine ⟨hsound.exists_anatomy hd, ?_⟩
  rintro a rfl ha
  have hlist : σ.get? a.labelList = some (.list ((a.parts.map Part.mark).map Mark.label)) := by
    rw [List.map_map]
    exact ha.labelList
  have hmarks : ∀ m ∈ a.parts.map Part.mark, σ.Marks m :=
    List.forall_mem_map.2 fun p hp => (ha.parts p hp).marks
  refine ⟨⟨?_, ?_⟩, ⟨fun style => a.labelsOf_sublist style, a.labelsOf_perm,
    ha.disjoint_labelsOf⟩, Part.position a.parts, ha.read_position, ?_,
    Part.positionIs_position a.parts, Part.position_eq_or a.parts, ?_, ?_⟩
  · rw [read_primaryLabels ha.diagnostic rfl hlist hmarks, Anatomy.map_label_filter_marks]
  · rw [read_secondaryLabels ha.diagnostic rfl hlist hmarks, Anatomy.map_label_filter_marks]
  · rw [Part.position_eq_none_iff, Anatomy.labels, List.map_eq_nil_iff]
  · intro items more hitems hmore hprimary
    exact ha.read_position_of_perm (calmBut_update (T := (· = a.labelList)) rfl .none _)
      (get?_update_self _ _ (lt_size_of_get? ha.labelList)) hitems hmore hprimary
  · intro method v hfield hprimary hv
    exact ha.read_position_of_act hprimary hfield hv

/-- A diagnostic with a secondary label and a primary one that ends before it starts. -/
def mixedStore : Store :=
  ⟨[.byteRange ⟨.int 1, .int 3⟩, .label ⟨.style .secondary, .none, .object 0, .text ""⟩,
    .byteRange ⟨.int 7, .int 2⟩, .label ⟨.style .primary, .none, .object 2, .text ""⟩,
    .list [.object 1, .object 3], .list [],
    .diagnostic ⟨.severity .error, .none, .text "", .object 4, .object 5⟩], 0, [], {}⟩

/-- The anatomy of that diagnostic. -/
def mixedAnatomy : Anatomy :=
  ⟨6, 4, 5, .error, none, "",
    [⟨1, 0, .secondary, .none, ⟨1, 3⟩, ""⟩, ⟨3, 2, .primary, .none, ⟨7, 2⟩, ""⟩], []⟩

theorem mixedAnatomy_isIn : mixedAnatomy.IsIn mixedStore where
  diagnostic := rfl
  labelList := rfl
  noteList := rfl
  parts := by
    intro p hp
    simp only [mixedAnatomy, List.mem_cons, List.not_mem_nil, or_false] at hp
    rcases hp with rfl | rfl
    · exact ⟨rfl, rfl⟩
    · exact ⟨rfl, rfl⟩
  notes := List.forall_mem_nil _

/-- The primary label gives the position, though the secondary one starts before it, and also in
front of it when that is there once more. -/
theorem position_of_labels_mixed :
    (read (.object 6) "position").perform mixedStore = (.ok (.int 7), mixedStore) ∧
      let τ := mixedStore.update 4 (.list [.object 3, .object 1, .object 1])
      (read (.object 6) "position").perform τ = (.ok (.int 7), τ) := by
  have hread : (read (.object 6) "position").perform mixedStore = (.ok (.int 7), mixedStore) :=
    mixedAnatomy_isIn.read_position
  obtain ⟨-, -, w, hposition, -, -, -, hstays, -⟩ :=
    (position_of_labels (σ := mixedStore) (l := 6) rfl mixedAnatomy_isIn.isSound).2 mixedAnatomy rfl
      mixedAnatomy_isIn
  rw [hread] at hposition
  obtain ⟨⟩ := hposition
  have hsecondary : mixedStore.IsSecondary (.object 1) :=
    ⟨_, rfl, mixedAnatomy_isIn.parts _ List.mem_cons_self, rfl⟩
  have hperm : [Value.object 3, .object 1, .object 1].Perm (mixedAnatomy.labels ++ [.object 1]) :=
    .swap _ _ _
  exact ⟨hread, hstays _ _ hperm (List.forall_mem_singleton.2 hsecondary) (.inr nofun)⟩

end Attribute

end Diagnostics
