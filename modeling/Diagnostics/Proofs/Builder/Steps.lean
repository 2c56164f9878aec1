import Diagnostics.Proofs.Builder.Edits
import Diagnostics.Proofs.Store.Outside

/-!
# What steps change

The steps that build a diagnostic change few objects: the receiver itself, its labels and its notes
(`touches`). Beyond them a step can use up what it is given and make objects that are no records,
whatever it is applied to and whether it fails or not (`Method.calmBut`).

What a step does to the objects that it changes is said for each of them on its own. The lists get
what is appended: all of it at once (`perform_extend`), or one by one what is made of each element, up
to the first that nothing can be made of (`takeEach_appendMade`).
-/

namespace Diagnostics

variable {α β : Type} {σ τ ρ : Store} {T U : Loc → Prop} {v w receiver target : Value}
  {vs : List Value} {l : Loc} {c : Cell}

open Store Diagnostics.Action

/-! ## Places that are touched -/

namespace Action

variable {a : Action α} {f : α → Action β}

/-- What both of two actions leave alone is left alone by one after the other. -/
theorem bind_calmBut (ha : σ.CalmBut T v (a.perform σ).2)
    (hf : ∀ x τ, a.perform σ = (.ok x, τ) → τ.CalmBut T v ((f x).perform τ).2) :
    σ.CalmBut T v ((a >>= f).perform σ).2 :=
  bind_related (R := CalmBut T v) .trans ha fun x τ hresult _ => hf x τ hresult

/-- An action that only looks touches nothing. -/
theorem IsReading.calmBut (ha : a.IsReading) : σ.CalmBut T v (a.perform σ).2 := by
  rw [ha σ]
  exact .refl T v σ

/-- Looking first adds nothing to what is touched then. -/
theorem IsReading.bind_calmBut (ha : a.IsReading)
    (hf : ∀ x, (a.perform σ).1 = .ok x → σ.CalmBut T v ((f x).perform σ).2) :
    σ.CalmBut T v ((a >>= f).perform σ).2 :=
  ha.bind_leaves (P := σ.CalmBut T v) (.refl T v σ) hf

/-- To give its elements a value touches nothing. -/
theorem elements_calmBut (T : Loc → Prop) (v : Value) (σ : Store) :
    σ.CalmBut T v ((elements v).perform σ).2 := by
  simp only [perform, elements, ExceptT.run, StateT.run]
  rcases helements : σ.elements? v with _ | ⟨vs, τ⟩
  · exact .refl T v σ
  · exact calmBut_of_elements? T helements v

/-- Taking all elements at once uses up their source and nothing else. -/
theorem takeAll_calmBut (T : Loc → Prop) (v : Value) (σ : Store) :
    σ.CalmBut T v ((takeAll v).perform σ).2 :=
  bind_calmBut (elements_calmBut T v σ) fun _ τ _ => calmBut_leave T τ v []

/-- What is done with each element may touch the same places each time. -/
theorem takeEach_calmBut {f : Value → Action β} (v : Value)
    (hf : ∀ (τ : Store) w, τ.CalmBut T v ((f w).perform τ).2) (vs : List Value) (σ : Store) :
    σ.CalmBut T v ((takeEach v f vs).perform σ).2 :=
  takeEach_related (R := CalmBut T v) (.refl T v) .trans (fun τ ws => calmBut_leave T τ v ws)
    (fun w τ => hf τ w) vs σ

end Action

/-- Appending touches the list that is appended to, if it is one. -/
theorem Attribute.append_calmBut (htarget : ∀ l, target = .object l → T l) (v w : Value)
    (σ : Store) : σ.CalmBut T v ((append target w).perform σ).2 := by
  rw [append, perform_bind_of_ok _ (perform_cell? _ _)]
  split
  · exact calmBut_update (htarget _ rfl) v _
  · exact (isReading_byteOf w).bind_calmBut fun b _ => calmBut_update (htarget _ rfl) v _
  · exact (isReading_noAttribute _ _).calmBut

namespace Builder

/-- Taking bytes from a value uses it up at most. -/
theorem takeBytes_calmBut (T : Loc → Prop) (v : Value) (σ : Store) :
    σ.CalmBut T v ((takeBytes v).perform σ).2 := by
  rw [takeBytes, perform_bind_of_ok _ (perform_cell? _ _)]
  split
  · exact .refl T _ σ
  · exact .refl T _ σ
  · refine bind_calmBut (.refl T _ σ) fun ρ τ _ => ?_
    split
    · exact .refl T _ τ
    · refine bind_calmBut (elements_calmBut T _ τ) fun vs ρ' _ => ?_
      exact takeEach_calmBut _ (fun ρ w => (Attribute.isReading_byteOf w).calmBut) vs ρ'

/-- Extending touches the list that grows, and uses up the source. -/
theorem extend_calmBut (htarget : ∀ l, target = .object l → T l) (v : Value) (σ : Store) :
    σ.CalmBut T v ((extend target v).perform σ).2 := by
  rw [extend, perform_bind_of_ok _ (perform_cell? _ _)]
  split
  · refine bind_calmBut (takeAll_calmBut T v σ) fun vs τ _ => ?_
    exact calmBut_update (htarget _ rfl) v _
  · refine bind_calmBut (takeBytes_calmBut T v σ) fun cs τ _ => ?_
    exact calmBut_update (htarget _ rfl) v _
  · exact (isReading_noAttribute _ _).calmBut

/-- Appending what is made of each element touches the list that grows, provided that making only
looks. -/
theorem appendFrom_calmBut {make : Value → Action Value} (htarget : ∀ l, target = .object l → T l)
    (hmake : ∀ v, (make v).IsReading) (v : Value) (σ : Store) :
    σ.CalmBut T v ((appendFrom target v make).perform σ).2 := by
  refine (isReading_feedsItself target v).bind_calmBut fun isEndless _ => ?_
  refine bind_calmBut (elements_calmBut T v σ) fun vs ρ _ => ?_
  refine bind_calmBut (takeEach_calmBut v (fun τ w => ?_) vs ρ) fun _ ρ' _ => ?_
  · refine (isReading_growing target _).bind_calmBut fun _ _ => ?_
    exact (hmake w).bind_calmBut fun u _ => Attribute.append_calmBut htarget v u τ
  · cases isEndless
    · exact .refl T v ρ'
    · exact .refl T v ρ'

/-- The places that a step touches: the receiver, and its lists. -/
def touches (σ : Store) (receiver : Value) (k : Loc) : Prop :=
  receiver = .object k ∨ ∃ d, σ.cell? receiver = some (.diagnostic d) ∧
    (d.labels = .object k ∨ d.notes = .object k)

/-- A step that gets to the fields of its receiver has a diagnostic before it. -/
theorem cell?_of_receiverFields {step : String} {d : DiagnosticFields}
    (h : ((receiverFields receiver step).perform σ).1 = .ok d) :
    σ.cell? receiver = some (.diagnostic d) := by
  rw [receiverFields, perform_bind_of_ok _ (perform_cell? _ _)] at h
  split at h
  · next d' hcell =>
    cases h
    exact hcell
  · cases h

/-- **Steps.** A step touches the receiver and its lists only, and it may use up what it is given. -/
theorem Method.calmBut (method : Method) (receiver v : Value) (σ : Store) :
    σ.CalmBut (touches σ receiver) v ((method.act receiver v).perform σ).2 := by
  have receiving : ∀ {step : String} {f : DiagnosticFields → Action Unit},
      (∀ d, σ.cell? receiver = some (.diagnostic d) →
        σ.CalmBut (touches σ receiver) v ((f d).perform σ).2) →
      σ.CalmBut (touches σ receiver) v ((receiverFields receiver step >>= f).perform σ).2 :=
    fun hf => (isReading_receiverFields receiver _).bind_calmBut
      fun d hd => hf d (cell?_of_receiverFields hd)
  have labels : ∀ {d}, σ.cell? receiver = some (.diagnostic d) →
      ∀ l, d.labels = .object l → touches σ receiver l :=
    fun hd l hl => .inr ⟨_, hd, .inl hl⟩
  have notes : ∀ {d}, σ.cell? receiver = some (.diagnostic d) →
      ∀ l, d.notes = .object l → touches σ receiver l :=
    fun hd l hl => .inr ⟨_, hd, .inr hl⟩
  cases method with
  | code =>
    rw [act, withCode, perform_bind_of_ok _ (perform_cell? _ _)]
    split
    · exact (isReading_plainText v).bind_calmBut fun s _ => calmBut_update (.inl rfl) v _
    · exact (isReading_noAttribute _ _).calmBut
  | message =>
    rw [act, withMessage, perform_bind_of_ok _ (perform_cell? _ _)]
    split
    · exact (isReading_plainText v).bind_calmBut fun s _ => calmBut_update (.inl rfl) v _
    · exact (isReading_plainText v).bind_calmBut fun s _ => calmBut_update (.inl rfl) v _
    · exact (isReading_noAttribute _ _).calmBut
  | labels => exact receiving fun d hd => extend_calmBut (labels hd) v σ
  | labelsEach =>
    exact receiving fun d hd => appendFrom_calmBut (labels hd) (fun _ _ => rfl) v σ
  | notes =>
    refine receiving fun d hd => ?_
    rw [extendFrom_noteOf]
    refine (isReading_growing d.notes _).bind_calmBut fun _ _ => ?_
    exact appendFrom_calmBut (notes hd) isReading_noteOf v σ
  | notesEach => exact receiving fun d hd => appendFrom_calmBut (notes hd) isReading_noteOf v σ

end Builder

/-! ## What is appended -/

/-- The values before the first failure. -/
def okPrefix {ε : Type} : List (Except ε α) → List α
  | [] => []
  | .ok a :: rest => a :: okPrefix rest
  | .error _ :: _ => []

namespace Action

/-- All elements at once are those that the value gives, after which nothing of it is left. -/
theorem perform_takeAll_of_some (h : σ.elements? v = some (vs, τ)) :
    (takeAll v).perform σ = (.ok vs, τ.leave v []) := by
  rw [takeAll, perform_bind_of_ok _ (perform_elements_of_some h)]
  rfl

end Action

namespace Builder

variable {b : Loc} {xs : List Value} {make : Value → Action Value}

/-- All elements are appended to a list at once. -/
theorem perform_extend (hb : σ.get? b = some (.list xs)) (h : σ.elements? v = some (vs, τ)) :
    (extend (.object b) v).perform σ = (.ok (), (τ.leave v []).update b (.list (xs ++ vs))) := by
  rw [extend, perform_bind_of_ok _ (perform_cell? _ _),
    show σ.cell? (.object b) = some (.list xs) from hb]
  exact perform_bind_of_ok _ (perform_takeAll_of_some h)

/-- A list is not extended by what gives no elements. -/
theorem perform_extend_of_none (hb : σ.get? b = some (.list xs)) (h : σ.elements? v = none) :
    (extend (.object b) v).perform σ = (.error (.notIterable (σ.typeName v)), σ) := by
  rw [extend, perform_bind_of_ok _ (perform_cell? _ _),
    show σ.cell? (.object b) = some (.list xs) from hb]
  refine perform_bind_of_error _ ?_
  rw [takeAll]
  exact perform_bind_of_error _ (perform_elements_of_none h)

/-- A list is ready to grow. -/
theorem perform_growing (hb : σ.get? b = some (.list xs)) (step : String) :
    (growing (.object b) step).perform σ = (.ok (), σ) :=
  perform_growing_list (show σ.cell? (.object b) = some (.list xs) from hb) step

/-- What is made of an element is appended to the list. -/
theorem perform_appendMade (hb : σ.get? b = some (.list xs))
    (hmade : (make v).perform σ = (.ok w, σ)) :
    (appendMade (.object b) make v).perform σ = (.ok (), σ.update b (.list (xs ++ [w]))) := by
  rw [appendMade, perform_bind_of_ok _ (perform_growing hb _), perform_bind_of_ok _ hmade,
    Attribute.append, perform_bind_of_ok _ (perform_cell? _ _),
    show σ.cell? (.object b) = some (.list xs) from hb]
  rfl

/-- If nothing can be made of an element, the list stays as it is. -/
theorem perform_appendMade_of_error (hb : σ.get? b = some (.list xs)) {e : Failure}
    (hmade : (make v).perform σ = (.error e, σ)) :
    (appendMade (.object b) make v).perform σ = (.error e, σ) := by
  rw [appendMade, perform_bind_of_ok _ (perform_growing hb _), perform_bind_of_error _ hmade]

/-- **One by one.** What is made of the elements of a value is appended to a list, up to the first of
which nothing can be made. The list and one-shot sequences apart, nothing changes on the way, so what
is made of an element can be known beforehand. -/
theorem takeEach_appendMade (hb : σ.get? b = some (.list xs)) (source : Value)
    {made : Value → Except Failure Value} (vs : List Value)
    (hmade : ∀ w ∈ vs, ∀ ρ, σ.CalmBut (· = b) source ρ → (make w).perform ρ = (made w, ρ)) :
    ∃ result τ, (takeEach source (appendMade (.object b) make) vs).perform σ = (result, τ) ∧
      σ.CalmBut (· = b) source τ ∧ τ.get? b = some (.list (xs ++ okPrefix (vs.map made))) ∧
      ((∃ us, result = .ok us) ↔ ∀ w ∈ vs, ∃ u, made w = .ok u) := by
  induction vs generalizing σ xs with
  | nil =>
    refine ⟨_, σ, rfl, .refl _ source σ, ?_, fun _ => List.forall_mem_nil _, fun _ => ⟨[], rfl⟩⟩
    rw [List.map_nil, okPrefix, List.append_nil, hb]
  | cons v vs ih =>
    obtain ⟨hv, hvs⟩ := List.forall_mem_cons.1 hmade
    have hleave := calmBut_leave (· = b) σ source vs
    have hb' : (σ.leave source vs).get? b = some (.list xs) :=
      (Calm.leave σ source vs).get?_eq hb nofun
    have hv' := hv _ hleave
    rw [takeEach, perform_bind_of_ok _ (perform_leave _ _ _), List.map_cons]
    rcases hresult : made v with e | w
    · rw [hresult] at hv'
      rw [perform_bind_of_error _ (perform_appendMade_of_error hb' hv')]
      refine ⟨_, _, rfl, hleave, by rw [okPrefix, List.append_nil, hb'], ?_, ?_⟩
      · rintro ⟨us, ⟨⟩⟩
      · intro hall
        obtain ⟨u, hu⟩ := hall v List.mem_cons_self
        rw [hresult] at hu
        cases hu
    · rw [hresult] at hv'
      rw [perform_bind_of_ok _ (perform_appendMade hb' hv')]
      have hupdate :
          σ.CalmBut (· = b) source ((σ.leave source vs).update b (.list (xs ++ [w]))) :=
        hleave.trans (calmBut_update (T := fun k => k = b) rfl source _)
      obtain ⟨result, τ, hperform, hτ, hlist, hok⟩ :=
        ih (get?_update_self _ _ (lt_size_of_get? hb')) fun u hu ρ hρ =>
          hvs u hu ρ (hupdate.trans hρ)
      have hlist' : τ.get? b = some (.list (xs ++ okPrefix (.ok w :: vs.map made))) := by
        rw [hlist, okPrefix, List.append_assoc, List.singleton_append]
      have hfirst : ∃ u, made v = .ok u := ⟨w, hresult⟩
      rcases result with e | us
      · rw [perform_bind_of_error _ hperform]
        refine ⟨_, τ, rfl, hupdate.trans hτ, hlist', fun h => ?_, fun hall => ?_⟩
        · obtain ⟨us, ⟨⟩⟩ := h
        · obtain ⟨us, ⟨⟩⟩ := hok.2 (List.forall_mem_cons.1 hall).2
      · rw [perform_bind_of_ok _ hperform]
        refine ⟨_, τ, rfl, hupdate.trans hτ, hlist', fun _ => ?_, fun _ => ⟨_, rfl⟩⟩
        exact List.forall_mem_cons.2 ⟨hfirst, hok.1 ⟨us, rfl⟩⟩

/-- A list feeds itself only if it is its own source. -/
theorem perform_feedsItself (hne : v ≠ .object b) :
    (feedsItself (.object b) v).perform σ = (.ok false, σ) := by
  have hfalse : (Value.object b == v) = false := beq_false_of_ne hne.symm
  rw [feedsItself, perform_bind_of_ok _ (perform_cell? _ _)]
  split
  · rw [hfalse]
    rfl
  · rw [hfalse]
    rfl
  · rfl

/-- What is made of the elements of another value is appended to a list. -/
theorem perform_appendFrom (hb : σ.get? b = some (.list xs)) (hne : v ≠ .object b)
    (h : σ.elements? v = some (vs, τ)) {made : Value → Except Failure Value}
    (hmade : ∀ w ∈ vs, ∀ ρ, τ.CalmBut (· = b) v ρ → (make w).perform ρ = (made w, ρ)) :
    ∃ result ρ, (appendFrom (.object b) v make).perform σ = (result, ρ) ∧
      τ.CalmBut (· = b) v ρ ∧ ρ.get? b = some (.list (xs ++ okPrefix (vs.map made))) ∧
      (result = .ok () ↔ ∀ w ∈ vs, ∃ u, made w = .ok u) := by
  obtain ⟨result, ρ, hperform, hρ, hlist, hok⟩ :=
    takeEach_appendMade ((Calm.of_elements? h).get?_eq hb nofun) v vs hmade
  rw [appendFrom, perform_bind_of_ok _ (perform_feedsItself hne),
    perform_bind_of_ok _ (perform_elements_of_some h)]
  rcases result with e | us
  · rw [perform_bind_of_error _ hperform]
    refine ⟨_, ρ, rfl, hρ, hlist, fun h => ?_, fun hall => ?_⟩
    · cases h
    · obtain ⟨us, ⟨⟩⟩ := hok.2 hall
  · rw [perform_bind_of_ok _ hperform]
    exact ⟨_, ρ, rfl, hρ, hlist, fun _ => hok.1 ⟨us, rfl⟩, fun _ => rfl⟩

/-- Nothing is appended from what gives no elements. -/
theorem perform_appendFrom_of_none (hne : v ≠ .object b) (h : σ.elements? v = none) :
    (appendFrom (.object b) v make).perform σ = (.error (.notIterable (σ.typeName v)), σ) := by
  rw [appendFrom, perform_bind_of_ok _ (perform_feedsItself hne)]
  exact perform_bind_of_error _ (perform_elements_of_none h)

/-! ## What is set -/

variable {d : DiagnosticFields}

/-- The fields of a receiver are those of the diagnostic that it is. -/
theorem perform_receiverFields (hl : σ.get? l = some (.diagnostic d)) (step : String) :
    (receiverFields (.object l) step).perform σ = (.ok d, σ) := by
  rw [receiverFields, perform_bind_of_ok _ (perform_cell? _ _),
    show σ.cell? (.object l) = some (.diagnostic d) from hl]
  rfl

/-- A code is set to the plain form of what is given. -/
theorem perform_withCode (hl : σ.get? l = some (.diagnostic d)) {s : String}
    (hs : (plainText v).perform σ = (.ok s, σ)) :
    (withCode (.object l) v).perform σ =
      (.ok (), σ.update l (.diagnostic { d with code := .text s })) := by
  rw [withCode, perform_bind_of_ok _ (perform_cell? _ _),
    show σ.cell? (.object l) = some (.diagnostic d) from hl]
  exact perform_bind_of_ok _ hs

/-- A code without a plain form is not set. -/
theorem perform_withCode_of_error (hl : σ.get? l = some (.diagnostic d)) {e : Failure}
    (he : (plainText v).perform σ = (.error e, σ)) :
    (withCode (.object l) v).perform σ = (.error e, σ) := by
  rw [withCode, perform_bind_of_ok _ (perform_cell? _ _),
    show σ.cell? (.object l) = some (.diagnostic d) from hl]
  exact perform_bind_of_error _ he

/-- A message is set to the plain form of what is given. -/
theorem perform_withMessage (hl : σ.get? l = some (.diagnostic d)) {s : String}
    (hs : (plainText v).perform σ = (.ok s, σ)) :
    (withMessage (.object l) v).perform σ =
      (.ok (), σ.update l (.diagnostic { d with message := .text s })) := by
  rw [withMessage, perform_bind_of_ok _ (perform_cell? _ _),
    show σ.cell? (.object l) = some (.diagnostic d) from hl]
  exact perform_bind_of_ok _ hs

/-- A message without a plain form is not set. -/
theorem perform_withMessage_of_error (hl : σ.get? l = some (.diagnostic d)) {e : Failure}
    (he : (plainText v).perform σ = (.error e, σ)) :
    (withMessage (.object l) v).perform σ = (.error e, σ) := by
  rw [withMessage, perform_bind_of_ok _ (perform_cell? _ _),
    show σ.cell? (.object l) = some (.diagnostic d) from hl]
  exact perform_bind_of_error _ he

end Builder

end Diagnostics
