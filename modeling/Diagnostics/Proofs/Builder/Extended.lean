import Diagnostics.Builder
import Diagnostics.Proofs.Action.Calm

/-!
# Extending is appending

Notes that extend a list are made one at a time, and the list has each of them before the next one is
made. So extending is a loop that appends, but for what is looked up once at the start and not at each
round (`extendFrom_noteOf`). Bytes are not extended in this way, but then no note is a byte: both ways
fail with the first.
-/

namespace Diagnostics

open Diagnostics.Action Store

namespace Action

variable {β : Type} {σ : Store}

/-- What follows an action only has to be the same where it gives something. -/
theorem perform_bind_congr {α : Type} {a : Action α} {f g : α → Action β}
    (h : ∀ x τ, a.perform σ = (.ok x, τ) → (f x).perform τ = (g x).perform τ) :
    (a >>= f).perform σ = (a >>= g).perform σ := by
  rw [perform_bind, perform_bind]
  rcases hresult : a.perform σ with ⟨e | x, τ⟩
  · rfl
  · exact h x τ hresult

/-- Two loops are the same where their rounds are, in all stores with a property that rounds keep. -/
theorem takeEach_congr {P : Store → Prop} {source : Value} {f g : Value → Action β}
    (hleave : ∀ σ us, P σ → P (σ.leave source us))
    (hround : ∀ σ v, P σ → (f v).perform σ = (g v).perform σ ∧ P ((f v).perform σ).2)
    (vs : List Value) (hσ : P σ) :
    (takeEach source f vs).perform σ = (takeEach source g vs).perform σ := by
  induction vs generalizing σ with
  | nil => rfl
  | cons v vs ih =>
    obtain ⟨hsame, hkept⟩ := hround _ v (hleave σ vs hσ)
    rw [takeEach, takeEach, perform_bind_of_ok _ (perform_leave σ source vs),
      perform_bind_of_ok _ (perform_leave σ source vs), perform_bind, perform_bind, ← hsame]
    generalize (f v).perform (σ.leave source vs) = outcome at hkept
    rcases outcome with ⟨e | x, τ⟩
    · rfl
    · dsimp only
      rw [perform_bind, perform_bind, ih hkept]

/-- A loop whose first round fails. -/
theorem takeEach_of_error {source v : Value} {vs : List Value} {f : Value → Action β} {e : Failure}
    {τ : Store} (h : (f v).perform (σ.leave source vs) = (.error e, τ)) :
    (takeEach source f (v :: vs)).perform σ = (.error e, τ) := by
  rw [takeEach, perform_bind_of_ok _ (perform_leave σ source vs), perform_bind_of_error _ h]

end Action

namespace Builder

variable {σ : Store} {target source v : Value} {l : Loc}

theorem isReading_growing (v : Value) (step : String) : (growing v step).IsReading := by
  intro σ
  rw [growing, perform_bind_of_ok _ (perform_cell? _ _)]
  split
  · rfl
  · rfl
  · exact isReading_noAttribute v step σ

theorem isReading_feedsItself (target source : Value) : (feedsItself target source).IsReading := by
  intro σ
  rw [feedsItself, perform_bind_of_ok _ (perform_cell? _ _)]
  split <;> rfl

theorem isReading_noteOf (v : Value) : (noteOf v).IsReading :=
  (isReading_plainText v).bind fun _ _ => rfl

/-- A note is a text. -/
theorem noteOf_cases (σ : Store) (v : Value) :
    (∃ e, (noteOf v).perform σ = (.error e, σ)) ∨ ∃ s, (noteOf v).perform σ = (.ok (.text s), σ) := by
  rw [noteOf, perform_bind, (isReading_plainText v).perform_eq σ]
  rcases ((plainText v).perform σ).1 with e | s
  · exact .inl ⟨e, rfl⟩
  · exact .inr ⟨s, rfl⟩

theorem perform_growing_list {items : List Value} (hl : σ.cell? target = some (.list items))
    (step : String) : (growing target step).perform σ = (.ok (), σ) := by
  rw [growing, perform_bind_of_ok _ (perform_cell? _ _), hl]
  rfl

theorem perform_growing_buffer {bs : List UInt8} (hl : σ.cell? target = some (.buffer bs))
    (step : String) : (growing target step).perform σ = (.ok (), σ) := by
  rw [growing, perform_bind_of_ok _ (perform_cell? _ _), hl]
  rfl

/-- To a list a note is appended, whether it is looked up anew that this is a list or not. -/
theorem appendNote_list {items : List Value} (hl : σ.cell? target = some (.list items)) (v : Value) :
    (do Attribute.append target (← noteOf v) : Action Unit).perform σ =
        (appendMade target noteOf v).perform σ ∧
      ∃ items, ((do Attribute.append target (← noteOf v) : Action Unit).perform σ).2.cell? target =
        some (.list items) := by
  rw [appendMade, perform_bind_of_ok _ (perform_growing_list hl _)]
  refine ⟨rfl, ?_⟩
  rcases noteOf_cases σ v with ⟨e, he⟩ | ⟨s, hs⟩
  · rw [perform_bind_of_error _ he]
    exact ⟨items, hl⟩
  · obtain ⟨l, rfl, hcell⟩ := exists_of_cell? hl
    rw [perform_bind_of_ok _ hs, Attribute.append, perform_bind_of_ok _ (perform_cell? _ _), hl]
    exact ⟨_, get?_update_self _ _ (lt_size_of_get? hcell)⟩

/-- To bytes no note is appended. -/
theorem appendNote_buffer {bs : List UInt8} (hl : σ.cell? target = some (.buffer bs)) (v : Value) :
    ∃ e, (do Attribute.byteOf (← noteOf v) : Action UInt8).perform σ = (.error e, σ) ∧
      (appendMade target noteOf v).perform σ = (.error e, σ) := by
  rw [appendMade, perform_bind_of_ok _ (perform_growing_buffer hl _)]
  rcases noteOf_cases σ v with ⟨e, he⟩ | ⟨s, hs⟩
  · exact ⟨e, perform_bind_of_error _ he, perform_bind_of_error _ he⟩
  · obtain ⟨l, rfl, hcell⟩ := exists_of_cell? hl
    refine ⟨.notAnInteger (σ.typeName (.text s)), perform_bind_of_ok _ hs, ?_⟩
    rw [perform_bind_of_ok _ hs, Attribute.append, perform_bind_of_ok _ (perform_cell? _ _), hl]
    rfl

/-- What has no elements does not feed itself. -/
theorem exists_feedsItself (σ : Store) (target source : Value) :
    ∃ b, (feedsItself target source).perform σ = (.ok b, σ) ∧
      ∀ τ, σ.elements? source = some ([], τ) → b = false := by
  rw [feedsItself, perform_bind_of_ok _ (perform_cell? _ _)]
  split
  · next w ws hcell =>
    obtain ⟨l, rfl, hl⟩ := exists_of_cell? hcell
    refine ⟨_, rfl, fun τ h => ?_⟩
    simp [elements?, Value.asText?, hl, Cell.items?] at h
  · next b bs hcell =>
    obtain ⟨l, rfl, hl⟩ := exists_of_cell? hcell
    refine ⟨_, rfl, fun τ h => ?_⟩
    simp [elements?, Value.asText?, hl, Cell.items?, byteElements] at h
  · exact ⟨false, rfl, fun _ _ => rfl⟩

/-- A list is extended by notes as if they were appended. -/
theorem perform_extendFrom_list {items : List Value} (hl : σ.cell? target = some (.list items)) :
    (extendFrom target source noteOf).perform σ = (appendFrom target source noteOf).perform σ := by
  rw [extendFrom, perform_bind_of_ok _ (perform_cell? _ _), hl, appendFrom]
  refine perform_bind_congr fun isEndless τ hresult => perform_bind_congr fun vs ρ helements => ?_
  obtain rfl : τ = σ := by
    have hτ := isReading_feedsItself target source σ
    rwa [hresult] at hτ
  have hρ : ρ.cell? target = some (.list items) :=
    ((isCalm_elements source).perform_calm helements).cell?_eq hl (by simp)
  rw [perform_bind, perform_bind,
    takeEach_congr (P := fun τ => ∃ items, τ.cell? target = some (.list items)) ?_ ?_ vs ⟨items, hρ⟩]
  · rintro τ us ⟨items, hτ⟩
    exact ⟨items, (Calm.leave τ source us).cell?_eq hτ (by simp)⟩
  · rintro τ v ⟨items, hτ⟩
    exact appendNote_list hτ v

/-- Bytes are not extended by notes, nor are these appended to them. -/
theorem perform_extendFrom_buffer {bs : List UInt8} (hl : σ.cell? target = some (.buffer bs)) :
    (extendFrom target source noteOf).perform σ = (appendFrom target source noteOf).perform σ := by
  obtain ⟨l, rfl, hcell⟩ := exists_of_cell? hl
  obtain ⟨isEndless, hfeeds, hempty⟩ := exists_feedsItself σ (.object l) source
  rw [extendFrom, perform_bind_of_ok _ (perform_cell? _ _), hl, appendFrom,
    perform_bind_of_ok _ hfeeds]
  rcases helements : σ.elements? source with _ | ⟨vs, τ⟩
  · have hnone := perform_elements_of_none helements
    exact (perform_bind_of_error σ hnone).trans (perform_bind_of_error σ hnone).symm
  have hsome := perform_elements_of_some helements
  have hτ : τ.get? l = some (.buffer bs) := (Calm.of_elements? helements).get?_eq hcell (by simp)
  dsimp only
  rw [perform_bind_of_ok _ hsome, perform_bind_of_ok _ hsome]
  rcases vs with _ | ⟨v, vs⟩
  · rw [hempty τ helements, takeEach, takeEach, perform_bind_of_ok _ (perform_pure τ []),
      perform_bind_of_ok _ (perform_pure τ []), perform_update, List.append_nil, update_eq_self hτ]
    rfl
  · have hleft : (τ.leave source vs).cell? (.object l) = some (.buffer bs) :=
      (Calm.leave τ source vs).get?_eq hτ (by simp)
    obtain ⟨e, hbyte, happend⟩ := appendNote_buffer hleft v
    rw [perform_bind_of_error _ (takeEach_of_error hbyte),
      perform_bind_of_error _ (takeEach_of_error happend)]

/-- **Extending.** Notes extend what they are for as if they were appended one after the other. -/
theorem extendFrom_noteOf (target source : Value) :
    extendFrom target source noteOf =
      (do growing target "extend"; appendFrom target source noteOf) := by
  funext σ
  change (extendFrom target source noteOf).perform σ = Action.perform _ σ
  by_cases hlist : ∃ items, σ.cell? target = some (.list items)
  · obtain ⟨items, hcell⟩ := hlist
    rw [perform_bind_of_ok _ (perform_growing_list hcell _), perform_extendFrom_list hcell]
  by_cases hbuffer : ∃ bs, σ.cell? target = some (.buffer bs)
  · obtain ⟨bs, hcell⟩ := hbuffer
    rw [perform_bind_of_ok _ (perform_growing_buffer hcell _), perform_extendFrom_buffer hcell]
  have hgrowing : (growing target "extend").perform σ =
      (.error (.noAttribute (σ.typeName target) "extend"), σ) := by
    rw [growing, perform_bind_of_ok _ (perform_cell? _ _)]
    split
    · next items hcell => exact absurd ⟨items, hcell⟩ hlist
    · next bs hcell => exact absurd ⟨bs, hcell⟩ hbuffer
    · rfl
  rw [perform_bind_of_error _ hgrowing, extendFrom, perform_bind_of_ok _ (perform_cell? _ _)]
  split
  · next items hcell => exact absurd ⟨items, hcell⟩ hlist
  · next bs hcell => exact absurd ⟨bs, hcell⟩ hbuffer
  · rfl

end Builder

end Diagnostics
