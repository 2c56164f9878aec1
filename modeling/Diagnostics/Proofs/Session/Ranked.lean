import Diagnostics.Proofs.Builder.Rebound
import Diagnostics.Proofs.Data.Comparisons
import Diagnostics.Proofs.Sorting.Sorted
import Diagnostics.Proofs.Store.Reach
import Diagnostics.Session
import Mathlib.Data.List.Destutter

/-!
# Levels and styles in order

Levels and styles are also texts, but whatever puts them in order goes by their ranks. Each way has
a comparison of its own: sorting asks what is less, the greatest member is the one that none is
greater than, and different members are told apart by equality. All of them describe the order of
the ranks (`Enumerates`), so that they agree with each other and do not depend on the order in which
the members come (`ranked_in_order`).
-/

namespace Diagnostics

/-- What is a list of images in another order is one of images. -/
theorem exists_map_of_perm {α β : Type} {f : α → β} (hf : Function.Injective f) {xs : List α}
    {out : List β} (hout : out.Perm (xs.map f)) : ∃ ys : List α, ys.map f = out ∧ ys.Perm xs := by
  have hrange : out ∈ Set.range (List.map f) := by
    rw [Set.range_list_map]
    intro y hy
    obtain ⟨x, -, rfl⟩ := List.mem_map.1 (hout.subset hy)
    exact ⟨x, rfl⟩
  obtain ⟨ys, rfl⟩ := hrange
  exact ⟨ys, rfl, (List.map_perm_map_iff hf).1 hout⟩

namespace Value

/-- The rank of a level or a style. -/
def rank : Value → Nat
  | severity s => s.rank
  | style s => s.rank
  | _ => 0

/-- What a level or a style shows. -/
def member : Value → Data
  | severity s => .severity s
  | style s => .style s
  | _ => .none

end Value

namespace Reply

/-- The outcome with a new list of members. -/
def listed (τ : Store) (vs : List Value) : Except Failure Reply × Store :=
  (.ok ⟨.data (.list (vs.map Value.member)), some (.object τ.size)⟩, (τ.alloc (.list vs)).2)

/-- The outcome with one of the members, if there is any. -/
def chosen (function : String) (τ : Store) : Option Value → Except Failure Reply × Store
  | some v => (.ok ⟨.data v.member, some v⟩, τ)
  | none => (.error (.emptyArgument function), τ)

end Reply

/-- Whether values are the members of an enumeration, and compare by rank. -/
structure Enumerates {ε : Type} (value : ε → Value) : Prop where
  shows : ∀ σ : Store, ∀ m, σ.view (value m) = some (value m).member
  relates : ∀ r : Relation, r.isStrict = true → ∀ m n,
    Data.relate r (value m).member (value n).member =
      .ok (r.holds (compare (value m).rank (value n).rank))
  alike_iff : ∀ m n, Data.alike (value m).member (value n).member = true ↔ m = n
  hashable : ∀ m, (value m).member.unhashable? = none
  rank_injective : ∀ m n, (value m).rank = (value n).rank → m = n

/-- The levels are enumerated by rank. -/
theorem enumerates_severity : Enumerates Value.severity where
  shows σ m := Store.view_of_unfold_zero rfl
  relates r _ m n := Data.relate_severity r m n
  alike_iff m n := by
    simp only [Value.member, Data.alike, Data.alikePlain, Data.asNumber?, Data.asText?, beq_iff_eq]
    exact ⟨Severity.word_injective, congrArg Severity.word⟩
  hashable m := by rfl
  rank_injective m n := Severity.rank_injective

/-- The styles are enumerated by rank. -/
theorem enumerates_style : Enumerates Value.style where
  shows σ m := Store.view_of_unfold_zero rfl
  relates r hr m n := by
    rw [Value.member, Value.member, Data.relate_words r rfl rfl, Data.relateText, if_pos hr]
    rfl
  alike_iff m n := by
    simp only [Value.member, Data.alike, Data.alikePlain, Data.asNumber?, Data.asText?, beq_iff_eq]
    exact ⟨fun h => by cases m <;> cases n <;> simp_all [LabelStyle.word], congrArg LabelStyle.word⟩
  hashable m := by rfl
  rank_injective m n := LabelStyle.rank_injective

namespace Enumerates

open Diagnostics.Action Operation

variable {ε : Type} {value : ε → Value} {σ τ : Store} {ms ns : List ε} {source : Value}

/-- A member with what it shows. -/
def pair (value : ε → Value) (m : ε) : Value × Data := (value m, (value m).member)

/-- Whether a value with its data is a member with what it shows. -/
def IsPair (value : ε → Value) (p : Value × Data) : Prop := ∃ m, pair value m = p

/-- Members with one value are the same. -/
theorem injective (e : Enumerates value) : Function.Injective value :=
  fun m n h => e.rank_injective m n (congrArg Value.rank h)

theorem pair_injective (e : Enumerates value) : Function.Injective (pair value) :=
  fun _ _ h => e.injective (congrArg Prod.fst h)

theorem isPair_of_mem_map {p : Value × Data} (hp : p ∈ ms.map (pair value)) : IsPair value p := by
  obtain ⟨m, -, rfl⟩ := List.mem_map.1 hp
  exact ⟨m, rfl⟩

/-- Being less, and being greater, is a matter of ranks. -/
theorem compared_lt (e : Enumerates value) :
    Sorting.Less.IsByRank (compared .lt) (IsPair value) (·.1.rank) := by
  rintro _ _ ⟨m, rfl⟩ ⟨n, rfl⟩
  refine (e.relates .lt rfl m n).trans (congrArg Except.ok ?_)
  rw [Bool.eq_iff_iff, Relation.holds, beq_iff_eq, Nat.compare_eq_lt, decide_eq_true_iff]
  rfl

/-- Which of two members is above the other is decided by their ranks. -/
theorem compared_gt (e : Enumerates value) {p q : Value × Data} (hp : IsPair value p)
    (hq : IsPair value q) : compared .gt p q = .ok (decide (q.1.rank < p.1.rank)) := by
  obtain ⟨m, rfl⟩ := hp
  obtain ⟨n, rfl⟩ := hq
  refine (e.relates .gt rfl m n).trans (congrArg Except.ok ?_)
  rw [Bool.eq_iff_iff, Relation.holds, beq_iff_eq, Nat.compare_eq_gt, decide_eq_true_iff]
  rfl

/-! ## Members in order -/

/-- Whether a list is another one in the order of the ranks. -/
structure Orders (value : ε → Value) (ns ms : List ε) : Prop where
  perm : ns.Perm ms
  order : ns.Pairwise fun m n => (value m).rank ≤ (value n).rank

/-- There is one order of members only. -/
theorem Orders.unique (e : Enumerates value) {ns' ms' : List ε} (h : Orders value ns ms)
    (h' : Orders value ns' ms') (hperm : ms.Perm ms') : ns = ns' :=
  (h.perm.trans (hperm.trans h'.perm.symm)).eq_of_pairwise
    (fun m n _ _ hmn hnm => e.rank_injective m n (Nat.le_antisymm hmn hnm)) h.order h'.order

/-- A list of pairs comes from members. -/
theorem exists_members {out : List (Value × Data)} (hout : ∀ p ∈ out, IsPair value p) :
    ∃ ns : List ε, ns.map (pair value) = out := by
  rw [← Set.mem_range, Set.range_list_map]
  exact hout

/-- Sorting puts members in order. -/
theorem exists_orders (e : Enumerates value) (ms : List ε) : ∃ ns, Orders value ns ms ∧
    Sorting.sort (compared .lt) (ms.map (pair value)) = .ok (ns.map (pair value)) := by
  obtain ⟨out, hsort, hperm, horder⟩ := Sorting.exists_sort e.compared_lt fun _ => isPair_of_mem_map
  obtain ⟨ns, rfl, hns⟩ := exists_map_of_perm e.pair_injective hperm
  rw [List.pairwise_map] at horder
  exact ⟨ns, ⟨hns, horder⟩, hsort⟩

/-- Sorting the other way puts them in the order turned round. -/
theorem exists_orders_reverse (e : Enumerates value) (ms : List ε) : ∃ ns : List ε,
    Orders value ns.reverse ms ∧
      Sorting.sortFalling (compared .lt) (ms.map (pair value)) = .ok (ns.map (pair value)) := by
  obtain ⟨out, hsort, hperm, horder⟩ :=
    Sorting.exists_sortFalling e.compared_lt fun _ => isPair_of_mem_map
  obtain ⟨ns, rfl, hns⟩ := exists_map_of_perm e.pair_injective hperm
  rw [List.pairwise_map] at horder
  exact ⟨ns, ⟨(List.reverse_perm ns).trans hns, List.pairwise_reverse.2 horder⟩, hsort⟩

theorem Orders.ne_nil {m : ε} (h : Orders value ns ms) (hm : m ∈ ms) : ns ≠ [] :=
  List.ne_nil_of_mem (h.perm.mem_iff.2 hm)

/-- A member of the highest rank is the last in order. -/
theorem Orders.getLast?_eq (e : Enumerates value) {m : ε} (h : Orders value ns ms) (hm : m ∈ ms)
    (hbest : ∀ n ∈ ms, (value n).rank ≤ (value m).rank) : ns.getLast? = some m := by
  have hne := h.ne_nil hm
  have : Std.Refl fun m n => (value m).rank ≤ (value n).rank := ⟨fun _ => Nat.le_refl _⟩
  rw [List.getLast?_eq_some_getLast hne]
  refine congrArg some (e.rank_injective _ _ (Nat.le_antisymm ?_ ?_))
  · exact hbest _ (h.perm.subset (List.getLast_mem hne))
  · exact h.order.rel_getLast (h.perm.mem_iff.2 hm)

/-- A member of the lowest rank is the first in order. -/
theorem Orders.head?_eq (e : Enumerates value) {m : ε} (h : Orders value ns ms) (hm : m ∈ ms)
    (hbest : ∀ n ∈ ms, (value m).rank ≤ (value n).rank) : ns.head? = some m := by
  have hne := h.ne_nil hm
  have : Std.Refl fun m n => (value m).rank ≤ (value n).rank := ⟨fun _ => Nat.le_refl _⟩
  rw [List.head?_eq_some_head hne]
  refine congrArg some (e.rank_injective _ _ (Nat.le_antisymm ?_ ?_))
  · exact h.order.rel_head (h.perm.mem_iff.2 hm)
  · exact hbest _ (h.perm.subset (List.head_mem hne))

/-- The member that none is greater than is the last in order. -/
theorem exists_greatest (e : Enumerates value) {x : ε} {xs : List ε}
    (h : Orders value ns (x :: xs)) : ∃ m, ns.getLast? = some m ∧
      Sorting.best (compared .gt) (pair value x) (xs.map (pair value)) = .ok (pair value m) := by
  have hbeats : ∀ p q, IsPair value p → IsPair value q →
      compared .gt p q = .ok (decide ((q.1.rank : Int) < p.1.rank)) :=
    fun p q hp hq => (e.compared_gt hp hq).trans (congrArg Except.ok (by simp))
  obtain ⟨_, hbest, hmem, hscore⟩ :=
    Sorting.exists_best hbeats ⟨x, rfl⟩ fun _ => isPair_of_mem_map
  rw [← List.map_cons, List.mem_map] at hmem
  obtain ⟨m, hm, rfl⟩ := hmem
  refine ⟨m, h.getLast?_eq e hm fun n hn => ?_, hbest⟩
  exact Int.ofNat_le.1 (hscore _ (List.mem_map_of_mem (f := pair value) hn))

/-- The member that none is less than is the first in order. -/
theorem exists_least (e : Enumerates value) {x : ε} {xs : List ε}
    (h : Orders value ns (x :: xs)) : ∃ m, ns.head? = some m ∧
      Sorting.best (compared .lt) (pair value x) (xs.map (pair value)) = .ok (pair value m) := by
  have hbeats : ∀ p q, IsPair value p → IsPair value q →
      compared .lt p q = .ok (decide (-(q.1.rank : Int) < -p.1.rank)) :=
    fun p q hp hq => (e.compared_lt p q hp hq).trans (congrArg Except.ok (by simp))
  obtain ⟨_, hbest, hmem, hscore⟩ :=
    Sorting.exists_best hbeats ⟨x, rfl⟩ fun _ => isPair_of_mem_map
  rw [← List.map_cons, List.mem_map] at hmem
  obtain ⟨m, hm, rfl⟩ := hmem
  refine ⟨m, h.head?_eq e hm fun n hn => ?_, hbest⟩
  exact Int.ofNat_le.1 (Int.neg_le_neg_iff.1
    (hscore _ (List.mem_map_of_mem (f := pair value) hn)))

/-- Members told apart are the members in order without repetitions. -/
theorem sort_distinct [DecidableEq ε] (e : Enumerates value) (h : Orders value ns ms) :
    Sorting.sort (compared .lt)
        (Sorting.distinct (fun x y => Data.alike x.2 y.2) (ms.map (pair value))) =
      .ok ((ns.destutter (· ≠ ·)).map (pair value)) := by
  have hsame : ∀ p q, IsPair value p → IsPair value q → (Data.alike p.2 q.2 = true ↔ p = q) := by
    rintro _ _ ⟨m, rfl⟩ ⟨n, rfl⟩
    exact (e.alike_iff m n).trans e.pair_injective.eq_iff.symm
  obtain ⟨hnodup, hmem⟩ := Sorting.distinct_keeps hsame fun p (hp : p ∈ ms.map (pair value)) =>
    isPair_of_mem_map hp
  generalize Sorting.distinct _ _ = kept at hnodup hmem ⊢
  obtain ⟨ks, rfl⟩ := exists_members fun p hp => isPair_of_mem_map ((hmem p).1 hp)
  obtain ⟨ns', hns', hsort⟩ := e.exists_orders ks
  have : Std.Antisymm fun m n => (value m).rank ≤ (value n).rank :=
    ⟨fun m n hmn hnm => e.rank_injective m n (Nat.le_antisymm hmn hnm)⟩
  have hperm : (ns.destutter (· ≠ ·)).Perm ks := by
    rw [h.order.destutter_eq_dedup]
    refine (List.perm_ext_iff_of_nodup (List.nodup_dedup ns) (.of_map _ hnodup)).2 fun m => ?_
    rw [List.mem_dedup, h.perm.mem_iff]
    simpa only [List.mem_map_of_injective e.pair_injective] using (hmem (pair value m)).symm
  -- what is left is in order as well, and members have only one order
  have hdistinct : Orders value (ns.destutter (· ≠ ·)) ks :=
    ⟨hperm, h.order.sublist (List.destutter_sublist _ ns)⟩
  rw [hsort, hns'.unique e hdistinct (.refl ks)]

/-! ## Operations on members -/

/-- Members show themselves. -/
theorem perform_viewAll (e : Enumerates value) (ms : List ε) (σ : Store) :
    (viewAll (ms.map value)).perform σ = (.ok (ms.map fun m => (value m).member), σ) := by
  induction ms with
  | nil => rfl
  | cons m ms ih =>
    have hview : (view (value m)).perform σ = (.ok (value m).member, σ) :=
      perform_view σ (e.shows σ m)
    rw [List.map_cons, viewAll, perform_bind_of_ok σ hview, perform_bind_of_ok σ ih]
    rfl

/-- A list of members is viewed as members with what they show. -/
theorem perform_viewed (e : Enumerates value)
    (hsource : τ.cell? source = some (.list (ms.map value))) :
    (viewed source).perform τ = (.ok (ms.map (pair value)), τ) := by
  rw [viewed, perform_bind_of_ok τ (Builder.perform_takeAll_of_cell? hsource),
    perform_bind_of_ok τ (e.perform_viewAll ms τ), perform_pure, List.zip_map']
  rfl

theorem perform_ofValue (e : Enumerates value) (m : ε) (σ : Store) :
    (Reply.ofValue (value m)).perform σ =
      (.ok ⟨.data (value m).member, some (value m)⟩, σ) := by
  rw [Reply.ofValue, perform_bind_of_ok σ (perform_view σ (e.shows σ m))]
  rfl

theorem perform_ofList (e : Enumerates value) (ms : List ε) (σ : Store) :
    (Reply.ofList (ms.map value)).perform σ = Reply.listed σ (ms.map value) := by
  have hview : (σ.alloc (.list (ms.map value))).2.view (.object σ.size) =
      some (.list (ms.map fun m => (value m).member)) := by
    rw [Store.view_list (Store.get?_alloc_self σ _), Option.map_eq_some_iff]
    refine ⟨_, mapM_eq_some_iff.2 ?_, rfl⟩
    rw [List.forall₂_map_left_iff, List.forall₂_map_right_iff, List.forall₂_same]
    exact fun m _ => e.shows _ m
  rw [Reply.ofList, perform_bind_of_ok σ (perform_new σ _), Reply.ofValue,
    perform_bind_of_ok _ (perform_view _ hview), Reply.listed, List.map_map]
  rfl

/-- The reply with members that something has given. -/
theorem perform_ofList_of_ok (e : Enumerates value) {r : Except Failure (List (Value × Data))}
    (hr : r = .ok (ns.map (pair value))) (σ : Store) :
    (ofExcept r >>= fun out => Reply.ofList (out.map (·.1))).perform σ =
      Reply.listed σ (ns.map value) := by
  rw [hr, perform_bind_of_ok σ (perform_ofExcept σ _), List.map_map]
  exact e.perform_ofList ns σ

/-- Of no values none is the best. -/
theorem perform_best_nil {function : String} {r : Relation}
    (hviewed : (viewed source).perform τ = (.ok [], τ)) :
    (best function r source).perform τ = Reply.chosen function τ none := by
  rw [best, perform_bind_of_ok τ hviewed]
  rfl

/-- The best of some values is the one that is found by comparing. -/
theorem perform_best_cons (e : Enumerates value) {function : String} {r : Relation} {m : ε}
    {p : Value × Data} {ps : List (Value × Data)}
    (hviewed : (viewed source).perform τ = (.ok (p :: ps), τ))
    (hbest : Sorting.best (compared r) p ps = .ok (pair value m)) :
    (best function r source).perform τ = Reply.chosen function τ (some (value m)) := by
  rw [best, perform_bind_of_ok τ hviewed]
  simp only [hbest]
  exact (perform_bind_of_ok τ (perform_ofExcept τ _)).trans (e.perform_ofValue m τ)

variable {names : Names} {l : Literal}

section

variable (e : Enumerates value) (heval : (l.eval names).perform σ = (.ok source, τ))
  (hsource : τ.cell? source = some (.list (ms.map value)))
include e heval hsource

/-- Sorting gives the list that sorting the members gives. -/
theorem perform_sort {falling : Bool}
    (hsort : (if falling then Sorting.sortFalling (compared .lt) (ms.map (pair value))
      else Sorting.sort (compared .lt) (ms.map (pair value))) = .ok (ns.map (pair value))) :
    ((sort l falling).act names).perform σ = Reply.listed τ (ns.map value) := by
  rw [act, perform_bind_of_ok σ heval, perform_bind_of_ok τ (e.perform_viewed hsource)]
  exact e.perform_ofList_of_ok hsort τ

/-- The distinct members are those of the sorted list without repetition. -/
theorem perform_distinct [DecidableEq ε] (h : Orders value ns ms) :
    ((distinct l).act names).perform σ =
      Reply.listed τ ((ns.map value).destutter (· ≠ ·)) := by
  have hhashable : (ms.map (pair value)).findSome? (·.2.unhashable?) = none :=
    List.findSome?_eq_none_iff.2 (List.forall_mem_map.2 fun m _ => e.hashable m)
  rw [act, perform_bind_of_ok σ heval, perform_bind_of_ok τ (e.perform_viewed hsource)]
  simp only [hhashable]
  rw [← List.map_destutter_ne ns e.injective]
  exact e.perform_ofList_of_ok (e.sort_distinct h) τ

/-- The greatest is the last of the sorted members. -/
theorem perform_greatest (h : Orders value ns ms) :
    ((greatest l).act names).perform σ = Reply.chosen "max" τ (ns.map value).getLast? := by
  have hviewed := e.perform_viewed hsource
  rw [act, perform_bind_of_ok σ heval]
  cases ms with
  | nil =>
    rw [h.perm.eq_nil]
    exact perform_best_nil hviewed
  | cons x xs =>
    obtain ⟨m, hlast, hbest⟩ := e.exists_greatest h
    rw [List.getLast?_map, hlast]
    exact e.perform_best_cons hviewed hbest

/-- The least is the first of the sorted members. -/
theorem perform_least (h : Orders value ns ms) :
    ((least l).act names).perform σ = Reply.chosen "min" τ (ns.map value).head? := by
  have hviewed := e.perform_viewed hsource
  rw [act, perform_bind_of_ok σ heval]
  cases ms with
  | nil =>
    rw [h.perm.eq_nil]
    exact perform_best_nil hviewed
  | cons x xs =>
    obtain ⟨m, hfirst, hbest⟩ := e.exists_least h
    rw [List.head?_map, hfirst]
    exact e.perform_best_cons hviewed hbest

end

end Enumerates

open Operation

/-- Levels are members of one enumeration, and styles of another one. -/
theorem exists_enumeration {members : List Value}
    (hmembers : (∃ levels : List Severity, members = levels.map .severity) ∨
      ∃ styles : List LabelStyle, members = styles.map .style) :
    ∃ (ε : Type) (_ : DecidableEq ε) (value : ε → Value) (_ : Enumerates value) (ms : List ε),
      members = ms.map value := by
  rcases hmembers with ⟨levels, h⟩ | ⟨styles, h⟩
  · exact ⟨Severity, inferInstance, .severity, enumerates_severity, levels, h⟩
  · exact ⟨LabelStyle, inferInstance, .style, enumerates_style, styles, h⟩

/-- **Order by rank.** A list of levels, or of styles, has one order by rank. Sorting gives it, the
other way round if asked to; the greatest member is its last and the least its first, and different
members are given without repetitions in it. No order in which the members come changes any of
this, and neither do their words. -/
theorem ranked_in_order {members : List Value}
    (hmembers : (∃ levels : List Severity, members = levels.map .severity) ∨
      ∃ styles : List LabelStyle, members = styles.map .style) :
    [Severity.help, .note, .warning, .error, .bug].Pairwise (·.rank < ·.rank) ∧
    LabelStyle.secondary.rank < LabelStyle.primary.rank ∧
    ∃ rising falling : List Value,
      (rising.Perm members ∧ rising.Pairwise (·.rank ≤ ·.rank)) ∧
      (falling.Perm members ∧ falling.Pairwise (·.rank ≥ ·.rank)) ∧
      ∀ {l : Literal} {names : Names} {σ τ : Store} {source : Value} {others : List Value},
        (l.eval names).perform σ = (.ok source, τ) → τ.cell? source = some (.list others) →
        others.Perm members →
          ((sort l false).act names).perform σ = Reply.listed τ rising ∧
          ((sort l true).act names).perform σ = Reply.listed τ falling ∧
          ((distinct l).act names).perform σ = Reply.listed τ (rising.destutter (· ≠ ·)) ∧
          ((greatest l).act names).perform σ = Reply.chosen "max" τ rising.getLast? ∧
          ((least l).act names).perform σ = Reply.chosen "min" τ rising.head? := by
  obtain ⟨ε, _, value, e, ms, rfl⟩ := exists_enumeration hmembers
  obtain ⟨ns, hns, -⟩ := e.exists_orders ms
  have horder : (ns.map value).Pairwise (·.rank ≤ ·.rank) := List.pairwise_map.2 hns.order
  refine ⟨by decide, by decide, ns.map value, (ns.map value).reverse, ⟨hns.perm.map value, horder⟩,
    ⟨(List.reverse_perm _).trans (hns.perm.map value), List.pairwise_reverse.2 horder⟩,
    fun heval hsource hothers => ?_⟩
  obtain ⟨ks, rfl, hks⟩ := exists_map_of_perm e.injective hothers
  have hk : Enumerates.Orders value ns ks := ⟨hns.perm.trans hks.symm, hns.order⟩
  refine ⟨?_, ?_, e.perform_distinct heval hsource hk, e.perform_greatest heval hsource hk,
    e.perform_least heval hsource hk⟩
  · obtain ⟨ns', hns', hsort⟩ := e.exists_orders ks
    rw [hk.unique e hns' (.refl ks)]
    exact e.perform_sort heval hsource hsort
  · obtain ⟨fs, hfs, hsort⟩ := e.exists_orders_reverse ks
    rw [hk.unique e hfs (.refl ks), List.map_reverse, List.reverse_reverse]
    exact e.perform_sort heval hsource hsort

/-- Four levels in order, of which two are the same. -/
theorem ranked_in_order_levels :
    let l : Literal := .list [.severity .error, .severity .help, .severity .bug, .severity .help]
    let τ : Store := (Store.empty.alloc
      (.list [.severity .error, .severity .help, .severity .bug, .severity .help])).2
    ((sort l false).act []).perform .empty =
        Reply.listed τ [.severity .help, .severity .help, .severity .error, .severity .bug] ∧
      ((distinct l).act []).perform .empty =
        Reply.listed τ [.severity .help, .severity .error, .severity .bug] ∧
      ((greatest l).act []).perform .empty = Reply.chosen "max" τ (some (.severity .bug)) ∧
      ((least l).act []).perform .empty = Reply.chosen "min" τ (some (.severity .help)) := by
  intro l τ
  let levels : List Severity := [.error, .help, .bug, .help]
  obtain ⟨-, -, rising, falling, ⟨hperm, horder⟩, -, hacts⟩ :=
    ranked_in_order (.inl ⟨levels, rfl⟩)
  obtain ⟨ks, rfl, hks⟩ := exists_map_of_perm enumerates_severity.injective hperm
  rw [List.pairwise_map] at horder
  have hk : Enumerates.Orders Value.severity ks levels := ⟨hks, horder⟩
  have hsorted : Enumerates.Orders Value.severity [.help, .help, .error, .bug] levels :=
    ⟨by decide, by decide⟩
  obtain rfl := hk.unique enumerates_severity hsorted (.refl levels)
  have heval : (l.eval []).perform .empty = (.ok (.object 0), τ) := rfl
  obtain ⟨hsort, -, hdistinct, hgreatest, hleast⟩ := hacts heval rfl (.refl _)
  exact ⟨hsort, hdistinct, hgreatest, hleast⟩

end Diagnostics
