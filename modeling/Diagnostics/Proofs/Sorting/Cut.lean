import Diagnostics.Data.Sorting.Search

/-!
# The place where a test begins to fail

A list is cut at a place by a property when just the items before the place have the property
(`Cut`). There is such a place where no item behind one without the property has it, and so in every
list that is in order. Searching finds it (`leading_eq`), however the gap is halved: it always lies
within the gap that is left (`between_eq`).
-/

namespace Diagnostics.Sorting

variable {α : Type} {p : α → Bool} {passes : Test α} {xs : List α} {n : Nat}

/-- After a result, what follows goes on with it. -/
theorem bind_of_ok {β γ : Type} {r : Except Failure β} {b : β} (h : r = .ok b)
    (f : β → Except Failure γ) : (r >>= f) = f b := by
  rw [h]
  rfl

/-- Whether just the items before a place have a property. -/
structure Cut (p : α → Bool) (xs : List α) (n : Nat) : Prop where
  le_length : n ≤ xs.length
  eq_decide : ∀ {i x}, xs[i]? = some x → p x = decide (i < n)

theorem Cut.of_mem_take (h : Cut p xs n) {x : α} (hx : x ∈ xs.take n) : p x = true := by
  obtain ⟨i, hi⟩ := List.mem_iff_getElem?.1 hx
  rw [List.getElem?_take] at hi
  split at hi
  · next hlt => rw [h.eq_decide hi, decide_eq_true hlt]
  · cases hi

theorem Cut.of_mem_drop (h : Cut p xs n) {x : α} (hx : x ∈ xs.drop n) : p x = false := by
  obtain ⟨i, hi⟩ := List.mem_iff_getElem?.1 hx
  rw [List.getElem?_drop] at hi
  rw [h.eq_decide hi]
  exact decide_eq_false (by omega)

theorem Cut.nil : Cut p [] 0 := ⟨Nat.le_refl _, nofun⟩

/-- A list can be cut where an item has the property with every later one. -/
theorem exists_cut (h : xs.Pairwise fun x y => p y = true → p x = true) : ∃ n, Cut p xs n := by
  induction xs with
  | nil => exact ⟨0, .nil⟩
  | cons x xs ih =>
    obtain ⟨hx, hxs⟩ := List.pairwise_cons.1 h
    by_cases hp : p x = true
    · obtain ⟨n, hn⟩ := ih hxs
      refine ⟨n + 1, Nat.succ_le_succ hn.le_length, fun {i y} hy => ?_⟩
      cases i with
      | zero => cases hy; simpa using hp
      | succ i => simpa using hn.eq_decide (i := i) hy
    · refine ⟨0, Nat.zero_le _, fun {i y} hy => ?_⟩
      cases i with
      | zero => cases hy; simpa using hp
      | succ i => simpa using fun hpy => hp (hx y (List.mem_of_getElem? hy) hpy)

/-! ## Searching -/

theorem Side.middle_lt (side : Side) {low high : Nat} (h : low < high) :
    low ≤ side.middle low high ∧ side.middle low high < high := by
  cases side <;> simp only [Side.middle] <;> omega

/-- **Halving.** The place is found within a gap that holds it. -/
theorem between_eq (hp : ∀ x ∈ xs, passes x = .ok (p x)) (hcut : Cut p xs n) (side : Side)
    {fuel low high : Nat} (hlow : low ≤ n) (hhigh : n ≤ high) (hlength : high ≤ xs.length)
    (hfuel : high - low ≤ fuel) : between side passes xs fuel low high = .ok n := by
  induction fuel generalizing low high with
  | zero =>
    obtain rfl : low = n := by omega
    rw [between]
  | succ fuel ih =>
    rw [between]
    split
    · next hlt =>
      obtain ⟨hlower, hupper⟩ := side.middle_lt hlt
      have hmiddle := List.getElem?_eq_getElem (l := xs) (Nat.lt_of_lt_of_le hupper hlength)
      rw [hmiddle]
      simp only [bind_of_ok (hp _ (List.mem_of_getElem? hmiddle)), hcut.eq_decide hmiddle,
        decide_eq_true_eq]
      split
      · exact ih (by omega) hhigh hlength (by omega)
      · exact ih hlow (by omega) (by omega) (by omega)
    · obtain rfl : low = n := by omega
      rfl

/-- Steps that double end in a gap that holds the place. -/
theorem exists_gap (hp : ∀ x ∈ xs, passes x = .ok (p x)) (hcut : Cut p xs n) (fuel : Nat)
    {last : Nat} (hlast : last < n) : ∃ low high, gap passes xs fuel last = .ok (low, high) ∧
      low ≤ n ∧ n ≤ high ∧ high ≤ xs.length := by
  induction fuel generalizing last with
  | zero => exact ⟨_, _, rfl, hlast, hcut.le_length, Nat.le_refl _⟩
  | succ fuel ih =>
    rw [gap]
    split
    · exact ⟨_, _, rfl, hlast, hcut.le_length, Nat.le_refl _⟩
    · next x hx =>
      simp only [bind_of_ok (hp _ (List.mem_of_getElem? hx)), hcut.eq_decide hx, decide_eq_true_eq]
      split
      · next hlt => exact ih hlt
      · next hlt =>
        have hlength := (List.getElem?_eq_some_iff.1 hx).1
        exact ⟨_, _, rfl, hlast, by omega, by omega⟩

/-- **Searching.** The number of items at the front that pass a test is found. -/
theorem leading_eq (hp : ∀ x ∈ xs, passes x = .ok (p x)) (hcut : Cut p xs n) (side : Side) :
    leading side passes xs = .ok n := by
  cases xs with
  | nil =>
    obtain rfl : n = 0 := Nat.le_zero.1 hcut.le_length
    rfl
  | cons x xs =>
    have hfirst : p x = decide (0 < n) := hcut.eq_decide (i := 0) rfl
    rw [leading, bind_of_ok (hp x List.mem_cons_self), hfirst]
    simp only [decide_eq_true_eq]
    split
    · next hlt =>
      obtain ⟨low, high, hgap, hlow, hhigh, hlength⟩ := exists_gap hp hcut xs.length hlt
      rw [bind_of_ok hgap]
      exact between_eq hp hcut side hlow hhigh hlength (Nat.le_refl _)
    · next hlt =>
      obtain rfl : n = 0 := by omega
      rfl

end Diagnostics.Sorting
