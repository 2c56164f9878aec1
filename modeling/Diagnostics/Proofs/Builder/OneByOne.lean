import Mathlib.Algebra.Group.Int.Defs
import Mathlib.Algebra.Group.Nat.Defs
import Diagnostics.Proofs.Builder.Runs

/-!
# One at a time, or all at once

Labels and notes are appended all at once or one at a time. On the way of a loop some values have been
appended and some elements of the source are left, and nothing else in the store differs from the
start (`Store.onWay`). So it is known exactly what a loop leaves behind, whether it comes to the end or
stops at an element of which nothing can be made (`appendFrom_appended`), and appending one at a time
comes to the same as appending all at once.
-/

namespace Diagnostics

variable {σ τ ρ : Store} {v source : Value} {vs : List Value} {b l : Loc} {c : Cell}

open Store Diagnostics.Action

namespace Store

/-! ## Stores on the way -/

theorem update_update (σ : Store) (l : Loc) (c c' : Cell) :
    (σ.update l c).update l c' = σ.update l c' := by
  simp [update]

theorem update_comm (σ : Store) {k : Loc} (h : l ≠ k) (c c' : Cell) :
    (σ.update l c).update k c' = (σ.update k c').update l c := by
  simp [update, List.set_comm _ _ h]

/-- What was left before does not count. -/
theorem leave_leave (σ : Store) (v : Value) (us ws : List Value) :
    (σ.leave v us).leave v ws = σ.leave v ws := by
  by_cases hv : ∃ before, σ.cell? v = some (.iterator before)
  · obtain ⟨before, hv⟩ := hv
    obtain ⟨l, rfl, hl⟩ := exists_of_cell? hv
    rw [leave_iterator hl, leave_iterator hl,
      leave_iterator (get?_update_self _ _ (lt_size_of_get? hl)), update_update]
  · rw [leave_other fun before hbefore => hv ⟨before, hbefore⟩]

/-- As long as nothing has been taken all is left. -/
theorem leave_of_elements? (h : σ.elements? v = some (vs, τ)) : τ.leave v vs = τ := by
  by_cases hv : ∃ before, τ.cell? v = some (.iterator before)
  · obtain ⟨before, hv⟩ := hv
    obtain ⟨l, rfl, hl⟩ := exists_of_cell? hv
    obtain ⟨c, hc⟩ : ∃ c, σ.get? l = some c := by
      rcases hc : σ.get? l with _ | c
      · simp [elements?, Value.asText?, hc] at h
      · exact ⟨c, rfl⟩
    obtain rfl := Option.some.inj (((Extends.of_elements? h).grows.get? hc).symm.trans hl)
    rw [elements?_of_object hc] at h
    obtain ⟨rfl, rfl⟩ := Prod.mk.inj (Option.some.inj h)
    rw [leave_iterator hl]
    exact update_eq_self hl
  · exact leave_other (fun before hbefore => hv ⟨before, hbefore⟩) vs

theorem leave_update_list {xs : List Value} (hb : σ.get? b = some (.list xs)) (v : Value)
    (items us : List Value) :
    (σ.update b (.list items)).leave v us = (σ.leave v us).update b (.list items) := by
  by_cases hv : ∃ before, σ.cell? v = some (.iterator before)
  · obtain ⟨before, hv⟩ := hv
    obtain ⟨l, rfl, hl⟩ := exists_of_cell? hv
    have hne : b ≠ l := by
      rintro rfl
      exact nomatch hb.symm.trans hl
    have hl' : (σ.update b (.list items)).get? l = some (.iterator before) := by
      rw [get?_update_ne _ _ hne, hl]
    rw [leave_iterator hl, leave_iterator hl', update_comm σ hne]
  · have hother : ∀ before, (σ.update b (.list items)).cell? v ≠ some (.iterator before) := by
      intro before hbefore
      rw [cell?_update hb] at hbefore
      split at hbefore
      · cases hbefore
      · exact hv ⟨before, hbefore⟩
    rw [leave_other hother, leave_other fun before hbefore => hv ⟨before, hbefore⟩]

/-- The store on the way of a loop: a list holds some items by now, and a source has some elements
left. -/
def onWay (σ : Store) (b : Loc) (items : List Value) (source : Value) (unread : List Value) : Store :=
  (σ.leave source unread).update b (.list items)

section OnWay

variable {xs : List Value}

theorem onWay_of_elements? (hb : τ.get? b = some (.list xs)) (h : σ.elements? v = some (vs, τ)) :
    τ.onWay b xs v vs = τ := by
  rw [onWay, leave_of_elements? h, update_eq_self hb]

theorem get?_leave (hb : σ.get? b = some (.list xs)) (v : Value) (us : List Value) :
    (σ.leave v us).get? b = some (.list xs) :=
  (Calm.leave σ v us).get?_eq hb nofun

theorem get?_onWay (hb : σ.get? b = some (.list xs)) (items : List Value) (v : Value)
    (us : List Value) : (σ.onWay b items v us).get? b = some (.list items) :=
  get?_update_self _ _ (lt_size_of_get? (get?_leave hb v us))

/-- Another element is taken. -/
theorem leave_onWay (hb : σ.get? b = some (.list xs)) (items : List Value) (v : Value)
    (us ws : List Value) : (σ.onWay b items v us).leave v ws = σ.onWay b items v ws := by
  rw [onWay, leave_update_list (get?_leave hb v us), leave_leave, onWay]

/-- Another value is appended. -/
theorem update_onWay (σ : Store) (b : Loc) (items ws : List Value) (v : Value) (us : List Value) :
    (σ.onWay b items v us).update b (.list ws) = σ.onWay b ws v us :=
  update_update _ _ _ _

end OnWay

end Store

/-! ## Loops -/

section Loops

variable {γ : Type} (form : Store → Value → Except Failure γ) (wrap : γ → Value) (xs : List Value)

/-- Whether forms are those of the first elements of a source, each found when the ones before it have
been appended to a list and its element has been taken. -/
def Store.FormsOnWay (σ : Store) (b : Loc) (source : Value) (vs : List Value) (gs : List γ) : Prop :=
  ∀ i u g, vs[i]? = some u → gs[i]? = some g →
    form (σ.onWay b (xs ++ (gs.take i).map wrap) source (vs.drop (i + 1))) u = .ok g

/-- How it ends that the forms of the elements of a source are appended to a list: all of them have
one, or one of them has none. Then the forms of those before it have been appended, and those after it
are left. -/
inductive Store.Appended (σ : Store) (b : Loc) (source : Value) (vs : List Value) :
    Except Failure Unit × Store → Prop where
  | all {gs : List γ} (forms : σ.FormsOnWay form wrap xs b source vs gs)
    (length : gs.length = vs.length) :
    Appended σ b source vs (.ok (), σ.onWay b (xs ++ gs.map wrap) source [])
  | stopped {gs : List γ} {u e} (forms : σ.FormsOnWay form wrap xs b source vs gs)
    (next : vs[gs.length]? = some u)
    (fault : form (σ.onWay b (xs ++ gs.map wrap) source (vs.drop (gs.length + 1))) u = .error e) :
    Appended σ b source vs
      (.error e, σ.onWay b (xs ++ gs.map wrap) source (vs.drop (gs.length + 1)))

variable {form wrap xs}

theorem Store.FormsOnWay.cons {g : γ} {gs : List γ}
    (hg : form (σ.onWay b xs source vs) v = .ok g)
    (hgs : σ.FormsOnWay form wrap (xs ++ [wrap g]) b source vs gs) :
    σ.FormsOnWay form wrap xs b source (v :: vs) (g :: gs) := by
  rintro (_ | i) u g' hu hg'
  · obtain rfl := Option.some.inj hu
    obtain rfl := Option.some.inj hg'
    simpa using hg
  · have hrest := hgs i u g' hu hg'
    simpa using hrest

/-- After the first element the loop goes on in the same way. -/
theorem Store.Appended.cons {g : γ} {outcome : Except Failure Unit × Store}
    (hg : form (σ.onWay b xs source vs) v = .ok g)
    (h : σ.Appended form wrap (xs ++ [wrap g]) b source vs outcome) :
    σ.Appended form wrap xs b source (v :: vs) outcome := by
  cases h with
  | @all gs forms length =>
    have hall := Appended.all (forms.cons hg) (congrArg Nat.succ length)
    simpa using hall
  | @stopped gs u e forms next fault =>
    have hstopped := Appended.stopped (u := u) (e := e) (forms.cons hg) (by simpa using next)
      (by simpa using fault)
    simpa using hstopped

theorem Store.onWay_calmBut (σ : Store) (b : Loc) (items : List Value) (source : Value)
    (us : List Value) : σ.CalmBut (· = b) source (σ.onWay b items source us) :=
  (calmBut_leave _ σ source us).trans (calmBut_update (T := (· = b)) rfl source _)

/-- Only the list and a source that is used up have changed. -/
theorem Store.Appended.calmBut {outcome : Except Failure Unit × Store}
    (h : σ.Appended form wrap xs b source vs outcome) : σ.CalmBut (· = b) source outcome.2 := by
  cases h with
  | all => exact σ.onWay_calmBut b _ source _
  | stopped => exact σ.onWay_calmBut b _ source _

namespace Builder

variable {make : Value → Action Value} {old : List Value}

/-- **Loops.** A loop from any point on the way. -/
theorem takeEach_appended (hmake : ∀ v σ, (make v).perform σ = ((form σ v).map wrap, σ))
    (hb : σ.get? b = some (.list old)) (source : Value) (xs vs : List Value) :
    let outcome :=
      (takeEach source (appendMade (.object b) make) vs).perform (σ.onWay b xs source vs)
    σ.Appended form wrap xs b source vs (outcome.1.map fun _ => (), outcome.2) := by
  induction vs generalizing xs with
  | nil =>
    have hall : σ.Appended form wrap xs b source [] (.ok (), σ.onWay b (xs ++ [].map wrap) source []) :=
      .all (fun i u g hu => by cases hu) rfl
    rw [List.map_nil, List.append_nil] at hall
    exact hall
  | cons v vs ih =>
    have hlist := get?_onWay hb xs source vs
    rw [takeEach, perform_bind_of_ok _ (perform_leave _ _ _), leave_onWay hb]
    have hmade := hmake v (σ.onWay b xs source vs)
    rcases hform : form (σ.onWay b xs source vs) v with e | g
    · rw [hform] at hmade
      rw [perform_bind_of_error _ (perform_appendMade_of_error hlist hmade)]
      have hstopped : σ.Appended form wrap xs b source (v :: vs)
          (.error e, σ.onWay b (xs ++ [].map wrap) source ((v :: vs).drop 1)) :=
        .stopped (fun i u g _ hg => by cases hg) rfl (by simpa using hform)
      rw [List.map_nil, List.append_nil] at hstopped
      exact hstopped
    · rw [hform] at hmade
      rw [perform_bind_of_ok _ (perform_appendMade hlist hmade), update_onWay]
      have hrest := ih (xs ++ [wrap g])
      rcases hperform : (takeEach source (appendMade (.object b) make) vs).perform
        (σ.onWay b (xs ++ [wrap g]) source vs) with ⟨e | us, ρ⟩
      · rw [perform_bind_of_error _ hperform]
        rw [hperform] at hrest
        exact hrest.cons hform
      · rw [perform_bind_of_ok _ hperform]
        rw [hperform] at hrest
        exact hrest.cons hform

/-- What is made of the elements of another value is appended one at a time. -/
theorem appendFrom_appended (hmake : ∀ v σ, (make v).perform σ = ((form σ v).map wrap, σ))
    (hb : σ.get? b = some (.list xs)) (hne : v ≠ .object b) (h : σ.elements? v = some (vs, τ)) :
    τ.Appended form wrap xs b v vs ((appendFrom (.object b) v make).perform σ) := by
  have hlist := (Calm.of_elements? h).get?_eq hb nofun
  have hloop := takeEach_appended hmake hlist v xs vs
  rw [onWay_of_elements? hlist h] at hloop
  rw [appendFrom, perform_bind_of_ok _ (perform_feedsItself hne),
    perform_bind_of_ok _ (perform_elements_of_some h)]
  rcases hperform : (takeEach v (appendMade (.object b) make) vs).perform τ with ⟨e | us, ρ⟩
  · rw [hperform] at hloop
    rwa [perform_bind_of_error _ hperform]
  · rw [hperform] at hloop
    rwa [perform_bind_of_ok _ hperform]

end Builder

end Loops

/-- Values are appended as they are, and all of them. -/
theorem Store.Appended.eq {xs : List Value} {outcome : Except Failure Unit × Store}
    (h : σ.Appended (fun _ v => .ok v) id xs b source vs outcome) :
    outcome = (.ok (), σ.onWay b (xs ++ vs) source []) := by
  cases h with
  | @all gs forms length =>
    have hgs : gs = vs := by
      refine List.ext_getElem length fun i hi hi' => ?_
      have hform := forms i vs[i] gs[i] (List.getElem?_eq_getElem hi') (List.getElem?_eq_getElem hi)
      exact (Except.ok.inj hform).symm
    rw [hgs, List.map_id]
  | stopped _ _ fault => cases fault

namespace Builder

variable {d : DiagnosticFields} {labels notes : List Value} {names : Names}
  {receiver argument : Value}

/-! ## Steps -/

theorem perform_withLabels_eq (hd : σ.get? l = some (.diagnostic d))
    (hlabels : σ.cell? d.labels = some (.list labels)) (hne : v ≠ d.labels) :
    (withLabels (.object l) v).perform σ = (withLabelsEach (.object l) v).perform σ := by
  obtain ⟨b, hlist, hb⟩ := exists_of_cell? hlabels
  rw [hlist] at hne
  rw [withLabels, withLabelsEach, perform_bind_of_ok _ (perform_receiverFields hd _),
    perform_bind_of_ok _ (perform_receiverFields hd _), hlist]
  rcases helements : σ.elements? v with _ | ⟨vs, τ⟩
  · rw [perform_extend_of_none hb helements, perform_appendFrom_of_none hne helements]
  · have hloop : τ.Appended (fun _ v => .ok v) id labels b v vs
        ((appendFrom (.object b) v pure).perform σ) :=
      appendFrom_appended (fun _ _ => rfl) hb hne helements
    rw [perform_extend hb helements, hloop.eq, onWay]

theorem perform_withNotes_eq (hd : σ.get? l = some (.diagnostic d))
    (hnotes : σ.cell? d.notes = some (.list notes)) (v : Value) :
    (withNotes (.object l) v).perform σ = (withNotesEach (.object l) v).perform σ := by
  rw [withNotes, withNotesEach, perform_bind_of_ok _ (perform_receiverFields hd _),
    perform_bind_of_ok _ (perform_receiverFields hd _), perform_extendFrom_list hnotes]

theorem perform_noteOf (v : Value) (σ : Store) :
    (noteOf v).perform σ = ((textOf σ v).map .text, σ) := by
  rw [noteOf, perform_bind, perform_plainText]
  rcases textOf σ v <;> rfl

/-- A step on what a receiver and an argument are evaluated to, after which the receiver is given
back. -/
theorem Method.perform_operation {r a : Literal} (method : Method)
    (hr : (r.eval names).perform σ = (.ok receiver, τ))
    (ha : (a.eval names).perform τ = (.ok argument, ρ)) :
    ((method.operation r a).act names).perform σ =
      (do
        method.act receiver argument
        Reply.ofReceiver receiver).perform ρ := by
  rw [Method.act_operation, Operation.step, perform_bind_of_ok _ hr, perform_bind_of_ok _ ha]

/-- Whether two steps do the same with a receiver and an argument, also as operations of a session. -/
structure Method.Agree (m n : Method) (σ : Store) (receiver argument : Value) : Prop where
  act : (m.act receiver argument).perform σ = (n.act receiver argument).perform σ
  operation : ∀ names r a ρ τ, (Literal.eval names r).perform ρ = (.ok receiver, τ) →
    (Literal.eval names a).perform τ = (.ok argument, σ) →
    ((m.operation r a).act names).perform ρ = ((n.operation r a).act names).perform ρ

theorem Method.agree_of_act {m n : Method}
    (h : (m.act receiver argument).perform σ = (n.act receiver argument).perform σ) :
    m.Agree n σ receiver argument := by
  refine ⟨h, fun names r a ρ τ hr ha => ?_⟩
  rw [m.perform_operation hr ha, n.perform_operation hr ha, perform_bind, perform_bind, h]

/-- A step that appends refuses what gives nothing one by one, and changes nothing then. -/
theorem perform_act_of_none (hd : σ.get? l = some (.diagnostic d))
    (hlabels : σ.cell? d.labels = some (.list labels))
    (hnotes : σ.cell? d.notes = some (.list notes)) (h : σ.elements? v = none) {method : Method}
    (hfield : method.field = .labels ∨ method.field = .notes) :
    (method.act (.object l) v).perform σ = (.error (.notIterable (σ.typeName v)), σ) := by
  -- lists give something one by one, so the argument is none of the two
  have hne : ∀ {w items}, σ.cell? w = some (.list items) → v ≠ w := by
    rintro w items hw rfl
    obtain ⟨k, rfl, hk⟩ := exists_of_cell? hw
    rw [elements?_of_object hk] at h
    cases h
  have hplain : (withLabels (.object l) v).perform σ =
      (.error (.notIterable (σ.typeName v)), σ) := by
    obtain ⟨b, hlist, hb⟩ := exists_of_cell? hlabels
    rw [withLabels, perform_bind_of_ok _ (perform_receiverFields hd _), hlist]
    exact perform_extend_of_none hb h
  have heach : (withNotesEach (.object l) v).perform σ =
      (.error (.notIterable (σ.typeName v)), σ) := by
    have hne' := hne hnotes
    obtain ⟨b, hlist, hb⟩ := exists_of_cell? hnotes
    rw [hlist] at hne'
    rw [withNotesEach, perform_bind_of_ok _ (perform_receiverFields hd _), hlist]
    exact perform_appendFrom_of_none hne' h
  cases method with
  | labels => exact hplain
  | labelsEach => exact (perform_withLabels_eq hd hlabels (hne hlabels)).symm.trans hplain
  | notes => exact (perform_withNotes_eq hd hnotes v).trans heach
  | notesEach => exact heach
  | code => simp [Method.field] at hfield
  | message => simp [Method.field] at hfield

/-- An integer has no text when it has too many digits. -/
theorem textOf_int_of_long {n : Int} (h : digitLimit < Digits.count n.natAbs)
    (hroom : 0 < σ.stack.room) : textOf σ (.int n) = .error .integerTooLong := by
  obtain ⟨room, hroom⟩ := Nat.exists_eq_succ_of_ne_zero (Nat.ne_of_gt hroom)
  have hcalls : ¬ room < (Value.int n).calls σ.stack := Nat.not_lt_zero room
  have hplain : σ.plain (.int n) = σ.literal σ.stack.room 0 [] (.int n) := rfl
  rw [textOf_eq, hplain, hroom, literal_leaf rfl, if_neg hcalls, leaf_int, Data.integerText,
    if_neg (Nat.not_le.2 h), Except.map]

theorem lt_count_pow {k : Nat} (hk : 0 < k) : k < Digits.count (10 ^ k : Int).natAbs := by
  rw [Int.natAbs_pow, Digits.count, Digits.digits, ← Nat.not_le,
    Nat.length_toDigits_le_iff (by decide) hk]
  exact Nat.lt_irrefl _

/-- The least positive number that has no text. -/
def longNumber : Int := 10 ^ digitLimit

theorem textOf_longNumber (hroom : 0 < σ.stack.room) :
    textOf σ (.int longNumber) = .error .integerTooLong :=
  textOf_int_of_long (lt_count_pow (by decide)) hroom

/-- A diagnostic with one note, and a one-shot sequence of a number that has no text between two
texts. -/
def brokenSequence : Store where
  cells := [.list [], .list [.text "a"],
    .diagnostic ⟨.severity .note, .none, .text "", .object 0, .object 1⟩,
    .iterator [.text "b", .int longNumber, .text "c"]]
  nans := 0
  carried := []

end Builder

end Diagnostics
