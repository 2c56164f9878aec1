import Diagnostics.Data.Sorting.Merge
import Diagnostics.Proofs.Sorting.Cut

/-!
# Two runs become one

Two runs that are in order become one that is in order, whatever the paces are at which they are
merged. One step (`Merging.step_advances`) puts items out that come before all that is left, and
leaves two runs in order (`Merging.IsGood`) with less to do; so the steps go on to the end
(`Merging.exists_run`). That one run is known to hold the last item is what makes it right to stop
when that item is left alone, and that one pace follows another is what makes it right to take an
item without a comparison.

All of this is said of one end from which the runs are read (`Side.Before`), so it holds of merging
from the front and from the back alike.
-/

namespace Diagnostics.Sorting

variable {α : Type}

/-! ## Comparisons by rank -/

/-- Whether a comparison is one by rank, among the items of some kind. -/
def Less.IsByRank (less : Less α) (kind : α → Prop) (rank : α → Nat) : Prop :=
  ∀ x y, kind x → kind y → less x y = .ok (decide (rank x < rank y))

/-- Whether items of some kind are in order. -/
structure IsRun (kind : α → Prop) (before : α → α → Prop) (xs : List α) : Prop where
  kind : ∀ x ∈ xs, kind x
  order : xs.Pairwise before

/-- Whether an item can come before another when they are read from an end. -/
def Side.Before (side : Side) (rank : α → Nat) (x y : α) : Prop :=
  match side with
  | front => rank x ≤ rank y
  | back => rank y ≤ rank x

variable {kind : α → Prop} {rank : α → Nat} {less : Less α} {side : Side}

theorem Side.Before.trans {x y z : α} (hxy : side.Before rank x y) (hyz : side.Before rank y z) :
    side.Before rank x z := by
  cases side with
  | front => exact Nat.le_trans hxy hyz
  | back => exact Nat.le_trans hyz hxy

/-- The left of two items that come next is taken exactly if it is found to come first. -/
def Side.isLeft (side : Side) (rank : α → Nat) (x y : α) : Bool :=
  match side with
  | front => !decide (rank y < rank x)
  | back => decide (rank y < rank x)

theorem Side.leftNext_eq (hless : less.IsByRank kind rank) (side : Side) {x y : α} (hx : kind x)
    (hy : kind y) : side.leftNext less x y = .ok (side.isLeft rank x y) := by
  cases side with
  | front =>
    simp only [leftNext, isLeft, hless y x hy hx]
    rfl
  | back => simp only [leftNext, isLeft, hless y x hy hx]

theorem Side.before_of_isLeft {x y : α} (h : side.isLeft rank x y = true) :
    side.Before rank x y := by
  cases side <;> simp [isLeft, Before] at * <;> omega

theorem Side.before_of_not_isLeft {x y : α} (h : side.isLeft rank x y = false) :
    side.Before rank y x := by
  cases side <;> simp [isLeft, Before] at * <;> omega

theorem Side.isLeft_of_before {x x' y : α} (h : side.Before rank x x')
    (hleft : side.isLeft rank x' y = true) : side.isLeft rank x y = true := by
  cases side <;> simp [isLeft, Before] at * <;> omega

theorem Side.not_isLeft_of_before {x y y' : α} (h : side.Before rank y y')
    (hleft : side.isLeft rank x y' = false) : side.isLeft rank x y = false := by
  cases side <;> simp [isLeft, Before] at * <;> omega

/-- What comes before the first item of a run comes before all of them. -/
theorem before_of_head {x y : α} {ys : List α} (hxy : side.Before rank x y)
    (hys : (y :: ys).Pairwise (side.Before rank)) : ∀ z ∈ y :: ys, side.Before rank x z := by
  intro z hz
  rcases List.mem_cons.1 hz with rfl | hz
  · exact hxy
  · exact hxy.trans ((List.pairwise_cons.1 hys).1 z hz)

theorem IsRun.drop {before : α → α → Prop} {xs : List α} (h : IsRun kind before xs) (i : Nat) :
    IsRun kind before (xs.drop i) where
  kind x hx := h.kind x (List.mem_of_mem_drop hx)
  order := h.order.sublist (List.drop_sublist i xs)

/-- In a run, the items at the front that pass a test are found, if every item passes with each that
comes behind it. -/
theorem IsRun.exists_leading {before : α → α → Prop} {xs : List α} (h : IsRun kind before xs)
    {passes : Test α} {p : α → Bool} (hpasses : ∀ x, kind x → passes x = .ok (p x))
    (hbefore : ∀ x y, before x y → p y = true → p x = true) (side : Side) :
    ∃ n, leading side passes xs = .ok n ∧ Cut p xs n := by
  obtain ⟨n, hcut⟩ := exists_cut (p := p) (h.order.imp (hbefore _ _))
  exact ⟨n, leading_eq (fun x hx => hpasses x (h.kind x hx)) hcut side, hcut⟩

/-! ## One step of merging -/

/-- How often a pace may give no item before it gives one. -/
def Pace.wait : Pace → Nat
  | oneRight _ => 0
  | oneLeft _ => 0
  | _ => 1

theorem Pace.wait_le_one (pace : Pace) : pace.wait ≤ 1 := by
  cases pace <;> simp [wait]

/-- What a pace takes for granted: which of the two first items comes next. -/
def Pace.Suits (pace : Pace) (before : α → α → Prop) (left right : List α) : Prop :=
  match pace with
  | oneRight _ => ∀ x ∈ left.head?, ∀ y ∈ right.head?, before y x
  | oneLeft _ => ∀ x ∈ left.head?, ∀ y ∈ right.head?, before x y
  | _ => True

/-- Whether the run that is known to hold the last item holds it. -/
def Side.HasLast (side : Side) (rank : α → Nat) (left right : List α) : Prop :=
  match side with
  | front => ∀ x ∈ left.getLast?, ∀ y ∈ right, rank y ≤ rank x
  | back => ∀ y ∈ right.getLast?, ∀ x ∈ left, rank y ≤ rank x

theorem mem_getLast?_of_mem_drop {x : α} {xs : List α} {i : Nat}
    (h : x ∈ (xs.drop i).getLast?) : x ∈ xs.getLast? := by
  rw [List.getLast?_drop] at h
  split at h
  · cases h
  · exact h

theorem Side.HasLast.drop {left right : List α} (h : side.HasLast rank left right) (i j : Nat) :
    side.HasLast rank (left.drop i) (right.drop j) := by
  cases side with
  | front => exact fun x hx y hy => h x (mem_getLast?_of_mem_drop hx) y (List.mem_of_mem_drop hy)
  | back => exact fun y hy x hx => h y (mem_getLast?_of_mem_drop hy) x (List.mem_of_mem_drop hx)

namespace Merging

/-- How many steps there are at most. -/
def measure (m : Merging α) : Nat := 2 * (m.left.length + m.right.length) + m.pace.wait

/-- Whether the two runs are in order, and as they are known to be. -/
structure IsGood (kind : α → Prop) (rank : α → Nat) (side : Side) (m : Merging α) : Prop where
  left : IsRun kind (side.Before rank) m.left
  right : IsRun kind (side.Before rank) m.right
  last : side.HasLast rank m.left m.right
  pace : m.pace.Suits (side.Before rank) m.left m.right

/-- Whether merging has got on: what has been put out comes before all that is left. -/
structure Advances (kind : α → Prop) (rank : α → Nat) (side : Side) (m : Merging α)
    (out : List α) (next : Merging α) : Prop where
  perm : (out ++ (next.left ++ next.right)).Perm (m.left ++ m.right)
  order : out.Pairwise (side.Before rank)
  before : ∀ x ∈ out, ∀ y ∈ next.left ++ next.right, side.Before rank x y
  good : next.IsGood kind rank side
  measure_lt : next.measure < m.measure

variable {m : Merging α} {x y : α} {xs ys : List α}

/-- Items of the left run that come before the right one can be put out. -/
theorem advances_left (h : m.IsGood kind rank side) (i : Nat) {pace : Pace} (patience : Nat)
    (hbefore : ∀ x ∈ m.left.take i, ∀ y ∈ m.right, side.Before rank x y)
    (hpace : pace.Suits (side.Before rank) (m.left.drop i) m.right)
    (hwait : pace.wait < 2 * (m.left.take i).length + m.pace.wait) :
    Advances kind rank side m (m.left.take i) ⟨m.left.drop i, m.right, pace, patience⟩ where
  perm := by rw [← List.append_assoc, List.take_append_drop]
  order := h.left.order.sublist (List.take_sublist i _)
  before x hx y hy := by
    have horder := h.left.order
    rw [← List.take_append_drop i m.left, List.pairwise_append] at horder
    rcases List.mem_append.1 hy with hy | hy
    · exact horder.2.2 x hx y hy
    · exact hbefore x hx y hy
  good := ⟨h.left.drop i, h.right, h.last.drop i 0, hpace⟩
  measure_lt := by
    simp only [measure, List.length_drop]
    rw [List.length_take] at hwait
    omega

/-- Items of the right run that come before the left one can be put out. -/
theorem advances_right (h : m.IsGood kind rank side) (j : Nat) {pace : Pace} (patience : Nat)
    (hbefore : ∀ y ∈ m.right.take j, ∀ x ∈ m.left, side.Before rank y x)
    (hpace : pace.Suits (side.Before rank) m.left (m.right.drop j))
    (hwait : pace.wait < 2 * (m.right.take j).length + m.pace.wait) :
    Advances kind rank side m (m.right.take j) ⟨m.left, m.right.drop j, pace, patience⟩ where
  perm := by
    have hcomm : (m.right.take j ++ m.left).Perm (m.left ++ m.right.take j) :=
      List.perm_append_comm
    have h := hcomm.append_right (m.right.drop j)
    rwa [List.append_assoc, List.append_assoc, List.take_append_drop] at h
  order := h.right.order.sublist (List.take_sublist j _)
  before y hy x hx := by
    have horder := h.right.order
    rw [← List.take_append_drop j m.right, List.pairwise_append] at horder
    rcases List.mem_append.1 hx with hx | hx
    · exact hbefore y hy x hx
    · exact horder.2.2 y hy x hx
  good := ⟨h.left, h.right.drop j, h.last.drop 0 j, hpace⟩
  measure_lt := by
    simp only [measure, List.length_drop]
    rw [List.length_take] at hwait
    omega

/-- The first left item can be put out if it comes before the first right one. -/
theorem advances_first_left (h : m.IsGood kind rank side) (hleft : m.left = x :: xs)
    (hright : m.right = y :: ys) (hxy : side.Before rank x y) {pace : Pace} (patience : Nat)
    (hpace : ∀ left right, pace.Suits (side.Before rank) left right) :
    Advances kind rank side m [x] ⟨m.left.tail, m.right, pace, patience⟩ := by
  have htake : m.left.take 1 = [x] := by rw [hleft]; rfl
  rw [← htake, ← List.drop_one]
  refine advances_left h 1 patience (fun z hz => ?_) (hpace _ _) ?_
  · rw [htake] at hz
    obtain rfl := List.mem_singleton.1 hz
    rw [hright]
    exact before_of_head hxy (hright ▸ h.right.order)
  · have hwait := pace.wait_le_one
    rw [htake]
    simp only [List.length_singleton]
    omega

/-- The first right item can be put out if it comes before the first left one. -/
theorem advances_first_right (h : m.IsGood kind rank side) (hleft : m.left = x :: xs)
    (hright : m.right = y :: ys) (hyx : side.Before rank y x) {pace : Pace} (patience : Nat)
    (hpace : ∀ left right, pace.Suits (side.Before rank) left right) :
    Advances kind rank side m [y] ⟨m.left, m.right.tail, pace, patience⟩ := by
  have htake : m.right.take 1 = [y] := by rw [hright]; rfl
  rw [← htake, ← List.drop_one]
  refine advances_right h 1 patience (fun z hz => ?_) (hpace _ _) ?_
  · rw [htake] at hz
    obtain rfl := List.mem_singleton.1 hz
    rw [hleft]
    exact before_of_head hyx (hleft ▸ h.left.order)
  · have hwait := pace.wait_le_one
    rw [htake]
    simp only [List.length_singleton]
    omega

/-- One item after a comparison. -/
theorem single_advances (hless : less.IsByRank kind rank) (h : m.IsGood kind rank side)
    (hleft : m.left = x :: xs) (hright : m.right = y :: ys) (left right : Nat) :
    ∃ out next, m.single side less left right x y = .ok (out, next) ∧
      m.Advances kind rank side out next := by
  have hx : kind x := h.left.kind x (hleft ▸ List.mem_cons_self)
  have hy : kind y := h.right.kind y (hright ▸ List.mem_cons_self)
  rw [single, bind_of_ok (side.leftNext_eq hless hx hy)]
  split
  · next hisLeft =>
    have hxy := Side.before_of_isLeft hisLeft
    split
    · exact ⟨_, _, rfl, advances_first_left h hleft hright hxy _ fun _ _ => trivial⟩
    · exact ⟨_, _, rfl, advances_first_left h hleft hright hxy _ fun _ _ => trivial⟩
  · next hisLeft =>
    have hyx := Side.before_of_not_isLeft (Bool.eq_false_iff.2 hisLeft)
    split
    · exact ⟨_, _, rfl, advances_first_right h hleft hright hyx _ fun _ _ => trivial⟩
    · exact ⟨_, _, rfl, advances_first_right h hleft hright hyx _ fun _ _ => trivial⟩

/-- A stretch of left items. -/
theorem exists_leading_left (hless : less.IsByRank kind rank) (h : m.IsGood kind rank side)
    (hright : m.right = y :: ys) : ∃ i, leading side (side.leftNext less · y) m.left = .ok i ∧
      (∀ x ∈ m.left.take i, ∀ y ∈ m.right, side.Before rank x y) ∧
      ∀ x ∈ (m.left.drop i).head?, ∀ y ∈ m.right.head?, side.Before rank y x := by
  have hy : kind y := h.right.kind y (hright ▸ List.mem_cons_self)
  obtain ⟨i, hi, hcut⟩ := h.left.exists_leading
    (fun x hx => side.leftNext_eq hless hx hy) (fun _ _ => Side.isLeft_of_before) side
  refine ⟨i, hi, fun x hx => ?_, fun x hx y' hy' => ?_⟩
  · rw [hright]
    exact before_of_head (Side.before_of_isLeft (hcut.of_mem_take hx)) (hright ▸ h.right.order)
  · rw [hright] at hy'
    cases hy'
    exact Side.before_of_not_isLeft (hcut.of_mem_drop (List.mem_of_mem_head? hx))

/-- A stretch of right items. -/
theorem exists_leading_right (hless : less.IsByRank kind rank) (h : m.IsGood kind rank side)
    (hleft : m.left = x :: xs) :
    ∃ j, leading side (fun y => return !(← side.leftNext less x y)) m.right = .ok j ∧
      (∀ y ∈ m.right.take j, ∀ x ∈ m.left, side.Before rank y x) ∧
      ∀ x ∈ m.left.head?, ∀ y ∈ (m.right.drop j).head?, side.Before rank x y := by
  have hx : kind x := h.left.kind x (hleft ▸ List.mem_cons_self)
  have hpasses : ∀ y, kind y → (do return !(← side.leftNext less x y) : Except Failure Bool) =
      .ok (!side.isLeft rank x y) := by
    intro y hy
    rw [side.leftNext_eq hless hx hy]
    rfl
  obtain ⟨j, hj, hcut⟩ := h.right.exists_leading hpasses (fun y y' hyy' => by
    simpa only [Bool.not_eq_true'] using Side.not_isLeft_of_before hyy') side
  refine ⟨j, hj, fun y hy => ?_, fun x' hx' y hy => ?_⟩
  · rw [hleft]
    have hpass := hcut.of_mem_take hy
    rw [Bool.not_eq_true'] at hpass
    exact before_of_head (Side.before_of_not_isLeft hpass) (hleft ▸ h.left.order)
  · rw [hleft] at hx'
    cases hx'
    have hfail := hcut.of_mem_drop (List.mem_of_mem_head? hy)
    rw [Bool.not_eq_false'] at hfail
    exact Side.before_of_isLeft hfail

/-- **One step.** Whatever the pace, a step of merging puts items out that come before all
others. -/
theorem step_advances (hless : less.IsByRank kind rank) (h : m.IsGood kind rank side)
    (hleft : m.left = x :: xs) (hright : m.right = y :: ys) :
    ∃ out next, m.step side less x y = .ok (out, next) ∧ m.Advances kind rank side out next := by
  have hsuits := h.pace
  rw [step]
  split
  · exact single_advances hless h hleft hright _ _
  · obtain ⟨out, next, hstep, hnext⟩ := single_advances hless
      (m := { m with patience := m.patience + 1 }) ⟨h.left, h.right, h.last, h.pace⟩ hleft hright
      0 0
    exact ⟨out, next, hstep, hnext.perm, hnext.order, hnext.before, hnext.good, hnext.measure_lt⟩
  · next again hpace =>
    obtain ⟨i, hi, hbefore, hafter⟩ := exists_leading_left hless h hright
    rw [bind_of_ok hi]
    exact ⟨_, _, rfl, advances_left h i _ hbefore hafter (by rw [hpace]; simp [Pace.wait])⟩
  · next stretch hpace =>
    rw [hpace] at hsuits
    exact ⟨_, _, rfl, advances_first_right h hleft hright
      (hsuits x (hleft ▸ rfl) y (hright ▸ rfl)) _ fun _ _ => trivial⟩
  · next stretch hpace =>
    obtain ⟨j, hj, hbefore, hafter⟩ := exists_leading_right hless h hleft
    rw [bind_of_ok hj]
    exact ⟨_, _, rfl, advances_right h j _ hbefore hafter (by rw [hpace]; simp [Pace.wait])⟩
  · next stretch hpace =>
    rw [hpace] at hsuits
    refine ⟨_, _, rfl, advances_first_left h hleft hright
      (hsuits x (hleft ▸ rfl) y (hright ▸ rfl)) _ fun _ _ => ?_⟩
    split <;> trivial

/-! ## All steps -/

/-- Where nothing is left to compare, the run that holds the last item ends with it. -/
theorem settled?_order {left right rest : List α} (hleft : left.Pairwise (side.Before rank))
    (hright : right.Pairwise (side.Before rank)) (hlast : side.HasLast rank left right)
    (h : side.settled? left right = some rest) :
    rest.Perm (left ++ right) ∧ rest.Pairwise (side.Before rank) := by
  unfold Side.settled? at h
  split at h
  · cases h
    exact ⟨.refl _, hright⟩
  · cases h
    rw [List.append_nil]
    exact ⟨.refl _, hleft⟩
  · next x y ys =>
    cases h
    refine ⟨List.perm_append_comm, List.pairwise_append.2 ⟨hright, hleft, fun z hz x' hx' => ?_⟩⟩
    obtain rfl := List.mem_singleton.1 hx'
    exact hlast x' rfl z hz
  · next x xs y =>
    cases h
    refine ⟨.refl _, List.pairwise_append.2 ⟨hleft, hright, fun z hz y' hy' => ?_⟩⟩
    obtain rfl := List.mem_singleton.1 hy'
    exact hlast y' rfl z hz
  · cases h

theorem exists_cons_of_settled? {left right : List α} (h : side.settled? left right = none) :
    (∃ x xs, left = x :: xs) ∧ ∃ y ys, right = y :: ys := by
  cases left with
  | nil => simp [Side.settled?] at h
  | cons x xs =>
    cases right with
    | nil => simp [Side.settled?] at h
    | cons y ys => exact ⟨⟨_, _, rfl⟩, _, _, rfl⟩

/-- **All steps.** Steps enough make one run of two. -/
theorem exists_run (hless : less.IsByRank kind rank) {fuel : Nat} (h : m.IsGood kind rank side)
    (hfuel : m.measure ≤ fuel) : ∃ out patience, run side less fuel m = .ok (out, patience) ∧
      out.Perm (m.left ++ m.right) ∧ out.Pairwise (side.Before rank) := by
  induction fuel generalizing m with
  | zero =>
    rw [measure] at hfuel
    have hleft : m.left = [] := List.eq_nil_of_length_eq_zero (by omega)
    have hright : m.right = [] := List.eq_nil_of_length_eq_zero (by omega)
    rw [run, hleft, hright]
    exact ⟨_, _, rfl, .refl _, .nil⟩
  | succ fuel ih =>
    rw [run]
    split
    · next x xs y ys _ hleft hright =>
      obtain ⟨out, next, hstep, hnext⟩ := step_advances hless h hleft hright
      have hlt := hnext.measure_lt
      obtain ⟨rest, patience, hrun, hperm, horder⟩ := ih hnext.good (by omega)
      simp only [bind_of_ok hstep, bind_of_ok hrun]
      refine ⟨_, _, rfl, (hperm.append_left out).trans hnext.perm, ?_⟩
      exact List.pairwise_append.2
        ⟨hnext.order, horder, fun x hx y hy => hnext.before x hx y (hperm.subset hy)⟩
    · next hnot =>
      rcases hsettled : side.settled? m.left m.right with _ | rest
      · obtain ⟨⟨x, xs, hleft⟩, y, ys, hright⟩ := exists_cons_of_settled? hsettled
        exact (hnot x xs y ys hsettled hleft hright).elim
      · exact ⟨_, _, rfl, settled?_order h.left.order h.right.order h.last hsettled⟩

/-- Merging from one end. -/
theorem exists_start (hless : less.IsByRank kind rank) {left right : List α}
    (hleft : IsRun kind (side.Before rank) left) (hright : IsRun kind (side.Before rank) right)
    (hlast : side.HasLast rank left right) (patience : Nat) :
    ∃ out patience', start side less patience left right = .ok (out, patience') ∧
      out.Perm (left ++ right) ∧ out.Pairwise (side.Before rank) :=
  exists_run hless (m := ⟨left, right, .single 0 0, patience⟩) ⟨hleft, hright, hlast, trivial⟩
    (Nat.le_refl _)

end Merging

/-! ## Merging from both ends -/

variable {left right : List α} {x y : α} {xs ys : List α}

/-- Whether items of some kind are in order, from the lowest rank to the highest. -/
abbrev IsAscending (kind : α → Prop) (rank : α → Nat) (xs : List α) : Prop :=
  IsRun kind (Side.front.Before rank) xs

theorem IsRun.reverse (h : IsAscending kind rank xs) :
    IsRun kind (Side.back.Before rank) xs.reverse where
  kind x hx := h.kind x (List.mem_reverse.1 hx)
  order := List.pairwise_reverse.2 h.order

theorem IsRun.tail {before : α → α → Prop} (h : IsRun kind before (x :: xs)) :
    IsRun kind before xs where
  kind y hy := h.kind y (List.mem_cons_of_mem x hy)
  order := h.order.of_cons

theorem IsRun.take {before : α → α → Prop} (h : IsRun kind before xs) (i : Nat) :
    IsRun kind before (xs.take i) where
  kind x hx := h.kind x (List.mem_of_mem_take hx)
  order := h.order.sublist (List.take_sublist i xs)

/-- Two runs are merged if the first item is on the right and the last one on the left. -/
theorem exists_interleave (hless : less.IsByRank kind rank) (hleft : IsAscending kind rank left)
    (hright : IsAscending kind rank right)
    (hfirst : ∀ y ∈ right.head?, ∀ x ∈ left, rank y ≤ rank x)
    (hlast : ∀ x ∈ left.getLast?, ∀ y ∈ right, rank y ≤ rank x) (patience : Nat) :
    ∃ out patience', interleave less patience left right = .ok (out, patience') ∧
      out.Perm (left ++ right) ∧ out.Pairwise (Side.front.Before rank) := by
  unfold interleave
  split
  · split
    · rw [List.append_nil]
      exact ⟨_, _, rfl, .refl _, hleft.order⟩
    · next y ys _ =>
      obtain ⟨zs, patience', hstart, hperm, horder⟩ := Merging.exists_start hless hleft hright.tail
        (fun x hx z hz => hlast x hx z (List.mem_cons_of_mem y hz)) patience
      rw [bind_of_ok hstart]
      refine ⟨_, _, rfl, (hperm.cons y).trans List.perm_middle.symm,
        List.pairwise_cons.2 ⟨?_, horder⟩⟩
      intro z hz
      rcases List.mem_append.1 (hperm.subset hz) with hz | hz
      · exact hfirst y rfl z hz
      · exact (List.pairwise_cons.1 hright.order).1 z hz
  · split
    · next hnil =>
      rw [List.reverse_eq_nil_iff.1 hnil]
      exact ⟨_, _, rfl, .refl _, hright.order⟩
    · next x xs hreverse =>
      have hbackward : IsRun kind (Side.back.Before rank) (x :: xs) := hreverse ▸ hleft.reverse
      have hgreatest : x ∈ left.getLast? := by rw [← List.head?_reverse, hreverse]; rfl
      have hmem : ∀ z ∈ xs, z ∈ left := fun z hz =>
        List.mem_reverse.1 (hreverse ▸ List.mem_cons_of_mem x hz)
      obtain ⟨zs, patience', hstart, hperm, horder⟩ := Merging.exists_start hless hbackward.tail
        hright.reverse (fun y hy z hz => hfirst y (by rwa [← List.getLast?_reverse]) z (hmem z hz))
        patience
      rw [bind_of_ok hstart]
      refine ⟨_, _, rfl, ?_, List.pairwise_reverse.2 (List.pairwise_cons.2 ⟨?_, horder⟩)⟩
      · have hparts : (x :: xs ++ right.reverse).Perm (left ++ right) :=
          (hreverse ▸ List.reverse_perm left).append (List.reverse_perm right)
        exact (List.reverse_perm _).trans ((hperm.cons x).trans hparts)
      · intro z hz
        rcases List.mem_append.1 (hperm.subset hz) with hz | hz
        · exact (List.pairwise_cons.1 hbackward.order).1 z hz
        · exact hlast x hgreatest z (List.mem_reverse.1 hz)

/-- The last item of a run has the highest rank. -/
theorem IsRun.rank_le_last (h : IsAscending kind rank xs) (hx : x ∈ xs.getLast?) :
    ∀ z ∈ xs, rank z ≤ rank x := by
  intro z hz
  obtain ⟨front, rfl⟩ := List.getLast?_eq_some_iff.1 hx
  rcases List.mem_append.1 hz with hz | hz
  · exact (List.pairwise_append.1 h.order).2.2 z hz x (List.mem_singleton_self x)
  · exact Nat.le_of_eq (congrArg rank (List.mem_singleton.1 hz))

theorem IsRun.first_le (h : IsAscending kind rank (y :: ys)) :
    ∀ z ∈ y :: ys, Side.front.Before rank y z :=
  before_of_head (Nat.le_refl (rank y)) h.order

/-- The items of the left run that stay in front of an item. -/
theorem exists_front (hless : less.IsByRank kind rank) (hleft : IsAscending kind rank left)
    (hy : kind y) : ∃ i, leading .front (fun x => return !(← less y x)) left = .ok i ∧
      (∀ x ∈ left.take i, rank x ≤ rank y) ∧ ∀ x ∈ left.drop i, rank y ≤ rank x := by
  have hpasses : ∀ x, kind x → (do return !(← less y x) : Except Failure Bool) =
      .ok (!decide (rank y < rank x)) := by
    intro x hx
    rw [hless y x hy hx]
    rfl
  obtain ⟨i, hi, hcut⟩ := hleft.exists_leading hpasses
    (fun x x' hxx' => by simpa using Nat.le_trans hxx') .front
  refine ⟨i, hi, fun x hx => ?_, fun x hx => ?_⟩
  · simpa using hcut.of_mem_take hx
  · exact Nat.le_of_lt (by simpa using hcut.of_mem_drop hx)

/-- The items of the right run that stay behind an item. -/
theorem exists_back (hless : less.IsByRank kind rank) (hright : IsAscending kind rank right)
    (hx : kind x) : ∃ j, leading .back (fun y => return !(← less y x)) right.reverse = .ok j ∧
      (∀ y ∈ right.take (right.length - j), rank y ≤ rank x) ∧
      ∀ y ∈ right.drop (right.length - j), rank x ≤ rank y := by
  have hpasses : ∀ y, kind y → (do return !(← less y x) : Except Failure Bool) =
      .ok (!decide (rank y < rank x)) := by
    intro y hy
    rw [hless y x hy hx]
    rfl
  obtain ⟨j, hj, hcut⟩ := hright.reverse.exists_leading hpasses
    (fun y y' hyy' => by simpa using fun h => Nat.le_trans h hyy') .back
  refine ⟨j, hj, fun y hy => ?_, fun y hy => ?_⟩
  · have hfail := hcut.of_mem_drop (x := y) (by rwa [List.drop_reverse, List.mem_reverse])
    exact Nat.le_of_lt (by simpa using hfail)
  · have hpass := hcut.of_mem_take (x := y) (by rwa [List.take_reverse, List.mem_reverse])
    simpa using hpass

/-- What is known to come first or last stays where it is, and the rest is merged between. -/
theorem parts_merged {front l r back zs : List α}
    (hleft : (front ++ l).Pairwise (Side.front.Before rank))
    (hright : (r ++ back).Pairwise (Side.front.Before rank))
    (hfirst : ∀ a ∈ front, ∀ b ∈ r ++ back, rank a ≤ rank b)
    (hlast : ∀ a ∈ l, ∀ b ∈ back, rank a ≤ rank b) (hperm : zs.Perm (l ++ r))
    (horder : zs.Pairwise (Side.front.Before rank)) :
    (front ++ zs ++ back).Perm (front ++ l ++ (r ++ back)) ∧
      (front ++ zs ++ back).Pairwise (Side.front.Before rank) := by
  obtain ⟨hfront, -, hfrontl⟩ := List.pairwise_append.1 hleft
  obtain ⟨-, hback, hrback⟩ := List.pairwise_append.1 hright
  constructor
  · simpa only [List.append_assoc] using (hperm.append_left front).append_right back
  · refine List.pairwise_append.2 ⟨List.pairwise_append.2 ⟨hfront, horder, fun a ha b hb => ?_⟩,
      hback, fun a ha b hb => ?_⟩
    · rcases List.mem_append.1 (hperm.subset hb) with hb | hb
      · exact hfrontl a ha b hb
      · exact hfirst a ha b (List.mem_append_left back hb)
    · rcases List.mem_append.1 ha with ha | ha
      · exact hfirst a ha b (List.mem_append_right r hb)
      · rcases List.mem_append.1 (hperm.subset ha) with ha | ha
        · exact hlast a ha b hb
        · exact hrback a ha b hb

theorem IsRun.of_perm {before : α → α → Prop} {out : List α} (hleft : IsRun kind before left)
    (hright : IsRun kind before right) (hperm : out.Perm (left ++ right))
    (horder : out.Pairwise before) : IsRun kind before out where
  kind x hx := (List.mem_append.1 (hperm.subset hx)).elim (hleft.kind x) (hright.kind x)
  order := horder

/-- **Merging.** Two runs are merged to one. -/
theorem exists_merge (hless : less.IsByRank kind rank) (hleft : IsAscending kind rank left)
    (hright : IsAscending kind rank right) (patience : Nat) :
    ∃ out patience', merge less patience left right = .ok (out, patience') ∧
      out.Perm (left ++ right) ∧ IsAscending kind rank out := by
  suffices h : ∃ out patience', merge less patience left right = .ok (out, patience') ∧
      out.Perm (left ++ right) ∧ out.Pairwise (Side.front.Before rank) by
    obtain ⟨out, patience', hmerge, hperm, horder⟩ := h
    exact ⟨out, patience', hmerge, hperm, hleft.of_perm hright hperm horder⟩
  unfold merge
  split
  · rw [List.append_nil]
    exact ⟨_, _, rfl, .refl _, hleft.order⟩
  · next y ys =>
    obtain ⟨i, hi, hfront, hbehind⟩ := exists_front hless hleft (hright.kind y List.mem_cons_self)
    have hfirst := hright.first_le
    rw [bind_of_ok hi]
    split
    · next hnone =>
      -- all of the left run stays in front
      rw [List.getLast?_eq_none_iff] at hnone
      have hall : left.take i = left := by
        rw [← List.append_nil (left.take i), ← hnone, List.take_append_drop]
      rw [hall] at hfront
      exact ⟨_, _, rfl, .refl _, List.pairwise_append.2 ⟨hleft.order, hright.order,
        fun a ha b hb => Nat.le_trans (hfront a ha) (hfirst b hb)⟩⟩
    · next x hx =>
      have hgreatest := (hleft.drop i).rank_le_last hx
      obtain ⟨j, hj, hbefore, hback⟩ := exists_back hless hright
        (hleft.kind x (List.mem_of_mem_drop (List.mem_of_mem_getLast? hx)))
      generalize hkept : (y :: ys).length - j = kept at hbefore hback
      have hhead : ∀ b ∈ ((y :: ys).take kept).head?, ∀ a ∈ left.drop i, rank b ≤ rank a := by
        intro b hb a ha
        rw [List.head?_take] at hb
        split at hb
        · cases hb
        · obtain rfl : y = b := Option.some.inj hb
          exact hbehind a ha
      have hlast : ∀ a ∈ (left.drop i).getLast?, ∀ b ∈ (y :: ys).take kept, rank b ≤ rank a := by
        intro a ha b hb
        obtain rfl : x = a := Option.some.inj (hx.symm.trans ha)
        exact hbefore b hb
      obtain ⟨zs, patience', hmerged, hperm, horder⟩ :=
        exists_interleave hless (hleft.drop i) (hright.take kept) hhead hlast patience
      simp only [bind_of_ok hj, hkept, bind_of_ok hmerged]
      have hleftOrder := hleft.order
      have hrightOrder := hright.order
      rw [← List.take_append_drop i left] at hleftOrder
      rw [← List.take_append_drop kept (y :: ys)] at hfirst hrightOrder
      have hparts := parts_merged hleftOrder hrightOrder
        (fun a ha b hb => Nat.le_trans (hfront a ha) (hfirst b hb))
        (fun a ha b hb => Nat.le_trans (hgreatest a ha) (hback b hb)) hperm horder
      rw [List.take_append_drop, List.take_append_drop] at hparts
      exact ⟨_, _, rfl, hparts⟩

end Diagnostics.Sorting
