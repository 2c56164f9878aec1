import Diagnostics.Data.Sorting
import Diagnostics.Proofs.Sorting.Merged

/-!
# Sorting by rank

Where a comparison is one by rank, sorting gives the same items in the order of their ranks
(`exists_sort`): every run that the list is cut into is in order (`exists_nextRun`), and merging
keeps it so. When which runs are merged does not matter here, nor how long they are.

The item that no later one beats has the highest score of all (`exists_best`), and leaving out what
is the same as something earlier keeps one of each (`distinct_keeps`).
-/

namespace Diagnostics.Sorting

variable {α : Type} {kind : α → Prop} {rank : α → Nat} {less : Less α} {x y : α}
  {xs ys run rest : List α}

/-! ## Runs -/

/-- The part that goes on falling is the front of the list, and in falling order. -/
theorem exists_falling (hless : less.IsByRank kind rank) (hx : kind x) (hxs : ∀ y ∈ xs, kind y) :
    ∃ run rest, falling less x xs = .ok (run, rest) ∧ run ++ rest = xs ∧
      (x :: run).Pairwise (Side.back.Before rank) := by
  induction xs generalizing x with
  | nil => exact ⟨_, _, rfl, rfl, List.pairwise_singleton _ _⟩
  | cons y ys ih =>
    obtain ⟨hy, hys⟩ := List.forall_mem_cons.1 hxs
    rw [falling, bind_of_ok (hless y x hy hx)]
    split
    · next hlt =>
      obtain ⟨run, rest, hrun, rfl, horder⟩ := ih hy hys
      rw [bind_of_ok hrun]
      have hfalls : Side.back.Before rank x y := Nat.le_of_lt (of_decide_eq_true hlt)
      exact ⟨_, _, rfl, rfl, List.pairwise_cons.2 ⟨before_of_head hfalls horder, horder⟩⟩
    · exact ⟨_, _, rfl, rfl, List.pairwise_singleton _ _⟩

/-- The part that goes on without falling is the front of the list, and in order. -/
theorem exists_rising (hless : less.IsByRank kind rank) (hx : kind x) (hxs : ∀ y ∈ xs, kind y) :
    ∃ run rest, rising less x xs = .ok (run, rest) ∧ run ++ rest = xs ∧
      (x :: run).Pairwise (Side.front.Before rank) := by
  induction xs generalizing x with
  | nil => exact ⟨_, _, rfl, rfl, List.pairwise_singleton _ _⟩
  | cons y ys ih =>
    obtain ⟨hy, hys⟩ := List.forall_mem_cons.1 hxs
    rw [rising, bind_of_ok (hless y x hy hx)]
    split
    · exact ⟨_, _, rfl, rfl, List.pairwise_singleton _ _⟩
    · next hlt =>
      obtain ⟨run, rest, hrun, rfl, horder⟩ := ih hy hys
      rw [bind_of_ok hrun]
      have hrises : Side.front.Before rank x y := Nat.le_of_not_lt fun h => hlt (decide_eq_true h)
      exact ⟨_, _, rfl, rfl, List.pairwise_cons.2 ⟨before_of_head hrises horder, horder⟩⟩

/-- The first run takes at least one item. -/
theorem exists_firstRun (hless : less.IsByRank kind rank) (hxs : ∀ x ∈ xs, kind x) :
    ∃ run rest, firstRun less xs = .ok (run, rest) ∧ (run ++ rest).Perm xs ∧
      run.Pairwise (Side.front.Before rank) ∧ (run = [] → xs = []) := by
  match xs with
  | [] => exact ⟨_, _, rfl, .refl _, .nil, id⟩
  | [x] => exact ⟨_, _, rfl, .refl _, List.pairwise_singleton _ _, nofun⟩
  | x :: y :: ys =>
    obtain ⟨hx, hrest⟩ := List.forall_mem_cons.1 hxs
    obtain ⟨hy, hys⟩ := List.forall_mem_cons.1 hrest
    rw [firstRun, bind_of_ok (hless y x hy hx)]
    split
    · next hlt =>
      obtain ⟨run, rest, hrun, rfl, horder⟩ := exists_falling hless hy hys
      rw [bind_of_ok hrun]
      have hfalls : Side.back.Before rank x y := Nat.le_of_lt (of_decide_eq_true hlt)
      refine ⟨_, _, rfl, (List.reverse_perm _).append_right rest, ?_, by simp⟩
      exact List.pairwise_reverse.2 (List.pairwise_cons.2 ⟨before_of_head hfalls horder, horder⟩)
    · next hlt =>
      obtain ⟨run, rest, hrun, rfl, horder⟩ := exists_rising hless hy hys
      rw [bind_of_ok hrun]
      have hrises : Side.front.Before rank x y := Nat.le_of_not_lt fun h => hlt (decide_eq_true h)
      exact ⟨_, _, rfl, .refl _, List.pairwise_cons.2 ⟨before_of_head hrises horder, horder⟩, nofun⟩

/-- An item is put where it belongs. -/
theorem exists_insert (hless : less.IsByRank kind rank) (hx : kind x)
    (hrun : IsAscending kind rank run) : ∃ out, insert less x run = .ok out ∧
      out.Perm (x :: run) ∧ IsAscending kind rank out := by
  have hpasses : ∀ y ∈ run, (do return !(← less x y) : Except Failure Bool) =
      .ok (!decide (rank x < rank y)) := by
    intro y hy
    rw [hless x y hx (hrun.kind y hy)]
    rfl
  obtain ⟨n, hcut⟩ := exists_cut (p := fun y => !decide (rank x < rank y))
    (hrun.order.imp fun {y y'} (hyy' : rank y ≤ rank y') => by
      simpa using Nat.le_trans hyy')
  have hbetween := between_eq hpasses hcut .front (Nat.zero_le n) hcut.le_length (Nat.le_refl _)
    (Nat.sub_le _ _)
  rw [insert, bind_of_ok hbetween]
  have horder := hrun.order
  rw [← List.take_append_drop n run] at horder
  obtain ⟨hfront, hback, hparts⟩ := List.pairwise_append.1 horder
  have hxback : (x :: run.drop n).Pairwise (Side.front.Before rank) :=
    List.pairwise_cons.2 ⟨fun y hy => Nat.le_of_lt (by simpa using hcut.of_mem_drop hy), hback⟩
  refine ⟨_, rfl, ?_, fun y hy => ?_, List.pairwise_append.2 ⟨hfront, hxback, fun y hy z hz => ?_⟩⟩
  · have h : (run.take n ++ x :: run.drop n).Perm (x :: (run.take n ++ run.drop n)) :=
      List.perm_middle
    rwa [List.take_append_drop] at h
  · rcases List.mem_append.1 hy with hy | hy
    · exact hrun.kind y (List.mem_of_mem_take hy)
    · rcases List.mem_cons.1 hy with rfl | hy
      · exact hx
      · exact hrun.kind y (List.mem_of_mem_drop hy)
  · rcases List.mem_cons.1 hz with rfl | hz
    · exact Nat.le_of_not_lt (by simpa using hcut.of_mem_take hy)
    · exact hparts y hy z hz

theorem exists_insertAll (hless : less.IsByRank kind rank) (hxs : ∀ x ∈ xs, kind x)
    (hrun : IsAscending kind rank run) : ∃ out, insertAll less run xs = .ok out ∧
      out.Perm (run ++ xs) ∧ IsAscending kind rank out := by
  induction xs generalizing run with
  | nil => exact ⟨run, rfl, by rw [List.append_nil], hrun⟩
  | cons x xs ih =>
    obtain ⟨hx, hxs⟩ := List.forall_mem_cons.1 hxs
    obtain ⟨next, hinsert, hnext, hascending⟩ := exists_insert hless hx hrun
    obtain ⟨out, hout, hperm, hascending⟩ := ih hxs hascending
    rw [insertAll, bind_of_ok hinsert]
    exact ⟨out, hout, hperm.trans ((hnext.append_right xs).trans List.perm_middle.symm), hascending⟩

/-- **Runs.** A run is cut off from a list. -/
theorem exists_nextRun (hless : less.IsByRank kind rank) (least : Nat) (hxs : ∀ x ∈ xs, kind x) :
    ∃ run rest, nextRun less least xs = .ok (run, rest) ∧ (run ++ rest).Perm xs ∧
      IsAscending kind rank run ∧ (xs ≠ [] → rest.length < xs.length) := by
  obtain ⟨run, rest, hfirst, hperm, horder, hnil⟩ := exists_firstRun hless hxs
  have hkind : ∀ x ∈ run ++ rest, kind x := fun x hx => hxs x (hperm.subset hx)
  have hrun : IsAscending kind rank run :=
    ⟨fun x hx => hkind x (List.mem_append_left rest hx), horder⟩
  have htaken : ∀ x ∈ rest.take (least - run.length), kind x :=
    fun x hx => hkind x (List.mem_append_right run (List.mem_of_mem_take hx))
  obtain ⟨out, hinsert, hout, hascending⟩ := exists_insertAll hless htaken hrun
  rw [nextRun, bind_of_ok hfirst]
  simp only [bind_of_ok hinsert]
  refine ⟨_, _, rfl, ?_, hascending, fun hne => ?_⟩
  · have h := hout.append_right (rest.drop (least - run.length))
    rw [List.append_assoc, List.take_append_drop] at h
    exact h.trans hperm
  · have hpos := List.length_pos_iff.2 (mt hnil hne)
    have hlength := hperm.length_eq
    rw [List.length_append] at hlength
    rw [List.length_drop]
    omega

/-! ## Waiting runs -/

/-- All items of runs that wait. -/
def Waiting.items (w : Waiting α) : List α := w.last ++ w.earlier.flatMap (·.1)

/-- Whether all runs that wait are in order. -/
structure Waiting.IsGood (kind : α → Prop) (rank : α → Nat) (w : Waiting α) : Prop where
  last : IsAscending kind rank w.last
  earlier : ∀ r ∈ w.earlier, IsAscending kind rank r.1

variable {w : Waiting α} {earlier : List (List α × Nat)} {last : List α}

/-- Merging some of the runs that wait leaves fewer of them. -/
theorem exists_settle (hless : less.IsByRank kind rank) (depth : Nat)
    (hearlier : ∀ r ∈ earlier, IsAscending kind rank r.1) (hlast : IsAscending kind rank last)
    (patience : Nat) : ∃ w, settle less depth earlier last patience = .ok w ∧
      w.items.Perm (last ++ earlier.flatMap (·.1)) ∧ w.IsGood kind rank := by
  induction earlier generalizing last patience with
  | nil => exact ⟨_, rfl, .refl _, hlast, hearlier⟩
  | cons r earlier ih =>
    obtain ⟨hr, hrest⟩ := List.forall_mem_cons.1 hearlier
    rw [settle]
    split
    · obtain ⟨merged, patience', hmerge, hmerged, hascending⟩ :=
        exists_merge hless hr hlast patience
      obtain ⟨w, hw, hperm, hgood⟩ := ih hrest hascending patience'
      simp only [bind_of_ok hmerge]
      refine ⟨w, hw, hperm.trans ?_, hgood⟩
      rw [List.flatMap_cons, ← List.append_assoc]
      exact (hmerged.trans List.perm_append_comm).append_right _
    · exact ⟨_, rfl, .refl _, hlast, hearlier⟩

theorem exists_collapse (hless : less.IsByRank kind rank)
    (hearlier : ∀ r ∈ earlier, IsAscending kind rank r.1) (hrun : IsAscending kind rank run)
    (hlast : IsAscending kind rank last) (patience : Nat) :
    ∃ out, collapse less earlier run last patience = .ok out ∧
      out.Perm (last ++ (run ++ earlier.flatMap (·.1))) ∧ IsAscending kind rank out := by
  induction earlier generalizing run last patience with
  | nil =>
    obtain ⟨merged, patience', hmerge, hmerged, hascending⟩ :=
      exists_merge hless hrun hlast patience
    rw [collapse, bind_of_ok hmerge]
    refine ⟨merged, rfl, ?_, hascending⟩
    rw [List.flatMap_nil, List.append_nil]
    exact hmerged.trans List.perm_append_comm
  | cons r earlier ih =>
    obtain ⟨hr, hrest⟩ := List.forall_mem_cons.1 hearlier
    rw [collapse, List.flatMap_cons]
    split
    · obtain ⟨merged, patience', hmerge, hmerged, hascending⟩ := exists_merge hless hr hrun patience
      obtain ⟨out, hout, hperm, hascending⟩ := ih hrest hascending hlast patience'
      simp only [bind_of_ok hmerge]
      refine ⟨out, hout, hperm.trans (List.Perm.append_left last ?_), hascending⟩
      rw [← List.append_assoc]
      exact (hmerged.trans List.perm_append_comm).append_right _
    · obtain ⟨merged, patience', hmerge, hmerged, hascending⟩ :=
        exists_merge hless hrun hlast patience
      obtain ⟨out, hout, hperm, hascending⟩ := ih hrest hr hascending patience'
      simp only [bind_of_ok hmerge]
      refine ⟨out, hout, hperm.trans ?_, hascending⟩
      rw [← List.append_assoc last]
      exact (hmerged.trans List.perm_append_comm).append_right _

theorem Waiting.exists_finish (hless : less.IsByRank kind rank) (h : w.IsGood kind rank) :
    ∃ out, w.finish less = .ok out ∧ out.Perm w.items ∧ IsAscending kind rank out := by
  obtain ⟨last, earlier, patience⟩ := w
  rw [finish]
  split
  · next hnil =>
    obtain rfl : earlier = [] := hnil
    exact ⟨last, rfl, by rw [items, List.flatMap_nil, List.append_nil], h.last⟩
  · next r depth earlier' hcons =>
    obtain rfl : earlier = (r, depth) :: earlier' := hcons
    obtain ⟨hr, hrest⟩ := List.forall_mem_cons.1 h.earlier
    exact exists_collapse hless hrest hr h.last patience

/-! ## Sorting -/

theorem exists_sortRest (hless : less.IsByRank kind rank) (total least : Nat) {fuel : Nat}
    (start : Nat) (hw : w.IsGood kind rank) (hrest : ∀ x ∈ rest, kind x)
    (hfuel : rest.length ≤ fuel) :
    ∃ out, sortRest less total least fuel start w rest = .ok out ∧ out.Perm (w.items ++ rest) ∧
      IsAscending kind rank out := by
  induction fuel generalizing start w rest with
  | zero =>
    obtain rfl := List.eq_nil_of_length_eq_zero (Nat.le_zero.1 hfuel)
    rw [List.append_nil]
    exact w.exists_finish hless hw
  | succ fuel ih =>
    cases rest with
    | nil =>
      rw [List.append_nil]
      exact w.exists_finish hless hw
    | cons x xs =>
      obtain ⟨run, rest, hnext, hcut, hrun, hlength⟩ := exists_nextRun hless least hrest
      obtain ⟨settled, hsettle, hsettled, hgood⟩ := exists_settle hless
        (boundary total start w.last.length run.length) hw.earlier hw.last w.patience
      generalize hdepth : boundary total start w.last.length run.length = depth at hsettle
      obtain ⟨out, hout, hperm, hascending⟩ := ih (start + w.last.length)
        (w := ⟨run, (settled.last, depth) :: settled.earlier, settled.patience⟩)
        ⟨hrun, List.forall_mem_cons.2 ⟨hgood.last, hgood.earlier⟩⟩
        (fun y hy => hrest y (hcut.subset (List.mem_append_right run hy)))
        (by have := hlength nofun; simp only [List.length_cons] at *; omega)
      have hitems : (run ++ settled.items ++ rest).Perm (w.items ++ (run ++ rest)) := by
        have h := (List.perm_append_comm.trans (hsettled.append_right run)).append_right rest
        rwa [List.append_assoc (w.last ++ _)] at h
      unfold sortRest
      simp only [bind_of_ok hnext, hdepth, bind_of_ok hsettle]
      exact ⟨out, hout, hperm.trans (hitems.trans (hcut.append_left w.items)), hascending⟩

/-- **Sorting.** By a comparison that is one by rank, a list is sorted: nothing is lost or added,
and no item stands behind one of a higher rank. -/
theorem exists_sort (hless : less.IsByRank kind rank) (hxs : ∀ x ∈ xs, kind x) :
    ∃ out, sort less xs = .ok out ∧ out.Perm xs ∧ out.Pairwise (rank · ≤ rank ·) := by
  obtain ⟨run, rest, hnext, hcut, hrun, -⟩ := exists_nextRun hless (leastRun xs.length) hxs
  obtain ⟨out, hout, hperm, hascending⟩ := exists_sortRest hless xs.length (leastRun xs.length)
    (w := ⟨run, [], longStretch⟩) 0 ⟨hrun, nofun⟩
    (fun x hx => hxs x (hcut.subset (List.mem_append_right run hx))) (Nat.le_refl _)
  rw [sort]
  simp only [bind_of_ok hnext]
  refine ⟨out, hout, ?_, hascending.order⟩
  rw [Waiting.items, List.flatMap_nil, List.append_nil] at hperm
  exact hperm.trans hcut

theorem exists_sortFalling (hless : less.IsByRank kind rank) (hxs : ∀ x ∈ xs, kind x) :
    ∃ out, sortFalling less xs = .ok out ∧ out.Perm xs ∧ out.Pairwise (rank · ≥ rank ·) := by
  have hreverse : ∀ x ∈ xs.reverse, kind x := fun x hx => hxs x (List.mem_reverse.1 hx)
  obtain ⟨out, hout, hperm, horder⟩ := exists_sort hless hreverse
  rw [sortFalling, bind_of_ok hout]
  exact ⟨_, rfl, (List.reverse_perm out).trans (hperm.trans (List.reverse_perm xs)),
    List.pairwise_reverse.2 horder⟩

/-! ## The best item, and different items -/

/-- The item that no later one beats has the highest score. -/
theorem exists_best {beats : Less α} {score : α → Int}
    (hbeats : ∀ x y, kind x → kind y → beats x y = .ok (decide (score y < score x)))
    (hx : kind x) (hxs : ∀ y ∈ xs, kind y) :
    ∃ z, best beats x xs = .ok z ∧ z ∈ x :: xs ∧ ∀ y ∈ x :: xs, score y ≤ score z := by
  induction xs generalizing x with
  | nil =>
    refine ⟨x, rfl, List.mem_cons_self, fun y hy => ?_⟩
    exact Int.le_of_eq (congrArg score (List.mem_singleton.1 hy))
  | cons y ys ih =>
    obtain ⟨hy, hys⟩ := List.forall_mem_cons.1 hxs
    rw [best, bind_of_ok (hbeats y x hy hx)]
    split
    · next hlt =>
      obtain ⟨z, hz, hmem, hbest⟩ := ih hy hys
      refine ⟨z, hz, List.mem_cons_of_mem x hmem, List.forall_mem_cons.2 ⟨?_, hbest⟩⟩
      exact Int.le_trans (Int.le_of_lt (of_decide_eq_true hlt)) (hbest y List.mem_cons_self)
    · next hlt =>
      obtain ⟨z, hz, hmem, hbest⟩ := ih hx hys
      obtain ⟨hxz, hysz⟩ := List.forall_mem_cons.1 hbest
      refine ⟨z, hz, ?_, List.forall_mem_cons.2 ⟨hxz, List.forall_mem_cons.2 ⟨?_, hysz⟩⟩⟩
      · rcases List.mem_cons.1 hmem with rfl | hmem
        · exact List.mem_cons_self
        · exact List.mem_cons_of_mem x (List.mem_cons_of_mem y hmem)
      · exact Int.le_trans (Int.le_of_not_gt fun h => hlt (decide_eq_true h)) hxz

/-- Going through items keeps one of each. -/
theorem foldl_distinct {same : α → α → Bool}
    (hsame : ∀ x y, kind x → kind y → (same x y = true ↔ x = y)) {kept : List α}
    (hxs : ∀ x ∈ xs, kind x) (hkept : ∀ x ∈ kept, kind x) (hnodup : kept.Nodup) :
    let out := xs.foldl (fun kept x => if kept.any (same x) then kept else x :: kept) kept
    out.Nodup ∧ ∀ y, y ∈ out ↔ y ∈ kept ∨ y ∈ xs := by
  induction xs generalizing kept with
  | nil => exact ⟨hnodup, fun y => by simp⟩
  | cons x xs ih =>
    obtain ⟨hx, hxs⟩ := List.forall_mem_cons.1 hxs
    have hany : kept.any (same x) = true ↔ x ∈ kept := by
      rw [List.any_eq_true]
      exact ⟨fun ⟨y, hy, h⟩ => (hsame x y hx (hkept y hy)).1 h ▸ hy,
        fun h => ⟨x, h, (hsame x x hx hx).2 rfl⟩⟩
    rw [List.foldl_cons]
    split
    · next hold =>
      rw [hany] at hold
      obtain ⟨hout, hmem⟩ := ih hxs hkept hnodup
      refine ⟨hout, fun y => (hmem y).trans ?_⟩
      rw [List.mem_cons]
      exact ⟨Or.imp_right .inr, fun h =>
        h.elim .inl fun h => h.elim (fun h => .inl (h ▸ hold)) .inr⟩
    · next hnew =>
      rw [hany] at hnew
      obtain ⟨hout, hmem⟩ :=
        ih hxs (List.forall_mem_cons.2 ⟨hx, hkept⟩) (List.nodup_cons.2 ⟨hnew, hnodup⟩)
      refine ⟨hout, fun y => (hmem y).trans ?_⟩
      rw [List.mem_cons, List.mem_cons, or_left_comm, or_assoc]

/-- **Different items.** Of items that are the same, one is kept. -/
theorem distinct_keeps {same : α → α → Bool}
    (hsame : ∀ x y, kind x → kind y → (same x y = true ↔ x = y)) (hxs : ∀ x ∈ xs, kind x) :
    (distinct same xs).Nodup ∧ ∀ y, y ∈ distinct same xs ↔ y ∈ xs := by
  obtain ⟨hnodup, hmem⟩ := foldl_distinct hsame hxs (List.forall_mem_nil kind) List.nodup_nil
  refine ⟨(List.reverse_perm _).nodup_iff.2 hnodup, fun y => ?_⟩
  rw [distinct, List.mem_reverse, hmem y]
  simp

end Diagnostics.Sorting
