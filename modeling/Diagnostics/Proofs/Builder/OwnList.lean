import Diagnostics.Proofs.Attribute.Position

/-!
# Appending a list to itself

Labels that are appended all at once may come from the very list that they are appended to, which is
doubled. One at a time this does not work: in each round the list grows by what is taken from it, so
the loop never reaches the end (`rounds_own`). Such a step is given up (`Failure.unending`), and only
then: from another list, and from one without items, all rounds come to an end
(`appending_own_list`).
-/

namespace Diagnostics

variable {σ τ ρ : Store} {v : Value} {xs vs : List Value} {b k l : Loc} {d : DiagnosticFields}
  {a : Anatomy}

open Store Diagnostics.Action

namespace Builder

variable {make : Value → Action Value}

/-! ## Rounds -/

/-- The item of a list at a place, if the list has come so far. -/
def itemOf (source : Value) (place : Nat) : Action (Option Value) := do
  match ← Action.cell? source with
  | some (.list items) => return items[place]?
  | _ => return none

/-- The rounds of a loop through a list that may grow meanwhile: each of them takes one item and
appends what is made of it. Whether the end of the list is found within so many rounds. -/
def rounds (target source : Value) (make : Value → Action Value) :
    (limit place : Nat) → Action Bool
  | 0, _ => return false
  | limit + 1, place => do
    match ← itemOf source place with
    | none => return true
    | some v =>
      appendMade target make v
      rounds target source make limit (place + 1)

theorem perform_itemOf (hk : σ.get? k = some (.list vs)) (place : Nat) :
    (itemOf (.object k) place).perform σ = (.ok vs[place]?, σ) := by
  rw [itemOf, perform_bind_of_ok _ (perform_cell? _ _),
    show σ.cell? (.object k) = some (.list vs) from hk]
  rfl

/-- The end is found where no item is left. -/
theorem perform_rounds_of_le {target : Value} {place : Nat} (hk : σ.get? k = some (.list vs))
    (hplace : vs.length ≤ place) (limit : Nat) :
    (rounds target (.object k) make (limit + 1) place).perform σ = (.ok true, σ) := by
  rw [rounds, perform_bind_of_ok _ (perform_itemOf hk place), List.getElem?_eq_none hplace]
  rfl

/-- A round. -/
theorem perform_rounds_of_lt {target : Value} {place : Nat} (hk : σ.get? k = some (.list vs))
    (hplace : place < vs.length) (limit : Nat) :
    (rounds target (.object k) make (limit + 1) place).perform σ =
      (do
        appendMade target make vs[place]
        rounds target (.object k) make limit (place + 1)).perform σ := by
  rw [rounds, perform_bind_of_ok _ (perform_itemOf hk place), List.getElem?_eq_getElem hplace]

/-- **Another list.** A loop through a list that does not grow finds the end, and comes to the same as
going through the items that were there at first. -/
theorem rounds_other (hmake : ∀ v, (make v).IsReading) (hne : k ≠ b)
    (hb : σ.get? b = some (.list xs)) (hk : σ.get? k = some (.list vs)) {limit place : Nat}
    (hplace : place ≤ vs.length) (hlimit : vs.length < limit + place) :
    let outcome := (takeEach (.object k) (appendMade (.object b) make) (vs.drop place)).perform σ
    (rounds (.object b) (.object k) make limit place).perform σ =
      (outcome.1.map fun _ => true, outcome.2) := by
  induction limit generalizing σ xs place with
  | zero => omega
  | succ limit ih =>
    rcases Nat.lt_or_eq_of_le hplace with hlt | rfl
    · rw [perform_rounds_of_lt hk hlt, List.drop_eq_getElem_cons hlt, takeEach,
        perform_bind_of_ok _ (perform_leave _ _ _), leave_list hk]
      have hread := (hmake vs[place]).perform_eq σ
      rcases hmade : ((make vs[place]).perform σ).1 with e | w
      · rw [hmade] at hread
        rw [perform_bind_of_error _ (perform_appendMade_of_error hb hread),
          perform_bind_of_error _ (perform_appendMade_of_error hb hread)]
        rfl
      · rw [hmade] at hread
        rw [perform_bind_of_ok _ (perform_appendMade hb hread),
          perform_bind_of_ok _ (perform_appendMade hb hread)]
        have hk' : (σ.update b (.list (xs ++ [w]))).get? k = some (.list vs) := by
          rw [get?_update_ne _ _ hne.symm, hk]
        have hrest := ih (get?_update_self σ (.list (xs ++ [w])) (lt_size_of_get? hb)) hk'
          (Nat.succ_le_of_lt hlt) (by omega)
        rw [hrest, perform_bind]
        rcases (takeEach (.object k) (appendMade (.object b) make) (vs.drop (place + 1))).perform
          (σ.update b (.list (xs ++ [w]))) with ⟨e | us, τ⟩
        · rfl
        · rfl
    · rw [perform_rounds_of_le hk (Nat.le_refl _), List.drop_length]
      rfl

/-- **The own list.** A loop that appends to the list it goes through does not find the end, for the
list grows in every round. -/
theorem rounds_own {P : Value → Prop}
    (hmake : ∀ v, P v → ∀ ρ, ∃ w, P w ∧ (make v).perform ρ = (.ok w, ρ))
    (hb : σ.get? b = some (.list xs)) (hxs : ∀ v ∈ xs, P v) {place : Nat}
    (hplace : place < xs.length) (limit : Nat) :
    ∃ more, more.length = limit ∧
      (rounds (.object b) (.object b) make limit place).perform σ =
        (.ok false, σ.update b (.list (xs ++ more))) := by
  induction limit generalizing σ xs place with
  | zero => exact ⟨[], rfl, by rw [List.append_nil, update_eq_self hb]; rfl⟩
  | succ limit ih =>
    obtain ⟨w, hw, hmade⟩ := hmake _ (hxs _ (List.getElem_mem hplace)) σ
    rw [perform_rounds_of_lt hb hplace, perform_bind_of_ok _ (perform_appendMade hb hmade)]
    have hxs' : ∀ v ∈ xs ++ [w], P v :=
      List.forall_mem_append.2 ⟨hxs, List.forall_mem_singleton.2 hw⟩
    obtain ⟨more, hlength, hrest⟩ :=
      ih (get?_update_self σ (.list (xs ++ [w])) (lt_size_of_get? hb)) hxs'
        (by simpa using hplace : place + 1 < (xs ++ [w]).length)
    refine ⟨w :: more, congrArg Nat.succ hlength, ?_⟩
    rw [hrest, update_update, List.append_assoc, List.singleton_append]

/-! ## Steps -/

theorem perform_feedsItself_list (hk : σ.get? k = some (.list vs)) (b : Loc) :
    (feedsItself (.object b) (.object k)).perform σ =
      (.ok (!vs.isEmpty && Value.object b == .object k), σ) := by
  rw [feedsItself, perform_bind_of_ok _ (perform_cell? _ _),
    show σ.cell? (.object k) = some (.list vs) from hk]
  cases vs <;> rfl

/-- From another list all is appended that its rounds append. -/
theorem perform_appendFrom_other (hmake : ∀ v, (make v).IsReading) (hne : k ≠ b)
    (hb : σ.get? b = some (.list xs)) (hk : σ.get? k = some (.list vs)) {limit : Nat}
    (hlimit : vs.length < limit) :
    let outcome := (appendFrom (.object b) (.object k) make).perform σ
    (rounds (.object b) (.object k) make limit 0).perform σ =
      (outcome.1.map fun _ => true, outcome.2) := by
  have hobject : Value.object k ≠ .object b := fun h => hne (Value.object.inj h)
  have hrounds := rounds_other hmake hne hb hk (Nat.zero_le _)
    (by simpa using hlimit : vs.length < limit + 0)
  rw [List.drop_zero] at hrounds
  rw [hrounds, appendFrom, perform_bind_of_ok _ (perform_feedsItself hobject),
    perform_bind_of_ok _ (Exchange.perform_elements_list hk), perform_bind]
  rcases (takeEach (.object k) (appendMade (.object b) make) vs).perform σ with ⟨e | us, τ⟩
  · rfl
  · rfl

/-- Without items nothing is appended. -/
theorem perform_appendFrom_nil (hb : σ.get? b = some (.list [])) :
    (appendFrom (.object b) (.object b) make).perform σ = (.ok (), σ) := by
  rw [appendFrom, perform_bind_of_ok _ (perform_feedsItself_list hb b),
    perform_bind_of_ok _ (Exchange.perform_elements_list hb)]
  rfl

/-- Appending to the list that the items come from is given up. -/
theorem perform_appendFrom_own (hmake : ∀ v ∈ xs, ∀ ρ, ∃ w, (make v).perform ρ = (.ok w, ρ))
    (hreading : ∀ v, (make v).IsReading) (hb : σ.get? b = some (.list xs)) (hne : xs ≠ []) :
    ((appendFrom (.object b) (.object b) make).perform σ).1 = .error .unending := by
  have htrue : (!xs.isEmpty && Value.object b == .object b) = true := by
    cases xs with
    | nil => exact absurd rfl hne
    | cons => exact beq_self_eq_true _
  have hform : ∀ v ρ, (make v).perform ρ = (((make v).perform ρ).1.map id, ρ) := by
    intro v ρ
    rw [Except.map_id]
    exact (hreading v).perform_eq ρ
  have hloop := takeEach_appended hform hb (.object b) xs xs
  rw [onWay_of_elements? hb (elements?_of_object hb)] at hloop
  rw [appendFrom, perform_bind_of_ok _ (perform_feedsItself_list hb b), htrue,
    perform_bind_of_ok _ (Exchange.perform_elements_list hb), perform_bind]
  generalize (takeEach (.object b) (appendMade (.object b) make) xs).perform σ = outcome at hloop ⊢
  obtain ⟨e | us, τ⟩ := outcome
  · -- nothing can fail on the way
    cases hloop with
    | @stopped gs u _ forms next fault =>
      obtain ⟨w, hw⟩ := hmake u (List.mem_of_getElem? next) (σ.onWay b (xs ++ gs.map id) (.object b)
        (xs.drop (gs.length + 1)))
      rw [hw] at fault
      cases fault
  · rfl

/-! ## The own list -/

/-- What a step makes of an item that it appends. -/
def Method.made : Method → Value → Action Value
  | .labels => pure
  | .labelsEach => pure
  | _ => noteOf

/-- How a step that appends one at a time gets along with the list that it appends to. -/
structure Method.Circles (method : Method) (σ : Store) (l b : Loc) (items : List Value) : Prop where
  /-- Without items there is nothing to append. -/
  empty : items = [] → (method.act (.object l) (.object b)).perform σ = (.ok (), σ)
  /-- The step is given up. -/
  unending : items ≠ [] → ((method.act (.object l) (.object b)).perform σ).1 = .error .unending
  /-- The end is not found, for in each round the list grows by one item. -/
  endless : items ≠ [] → ∀ limit, ∃ more, more.length = limit ∧
    (rounds (.object b) (.object b) method.made limit 0).perform σ =
      (.ok false, σ.update b (.list (items ++ more)))
  /-- In another list it is found, and the step does what the rounds do. -/
  other : ∀ k vs, k ≠ b → σ.get? k = some (.list vs) → ∀ limit, vs.length < limit →
    let outcome := (method.act (.object l) (.object k)).perform σ
    (rounds (.object b) (.object k) method.made limit 0).perform σ =
      (outcome.1.map fun _ => true, outcome.2)

theorem Method.circles {P : Value → Prop} {method : Method}
    (hact : ∀ v, (method.act (.object l) v).perform σ =
      (appendFrom (.object b) v method.made).perform σ)
    (hmake : ∀ v, P v → ∀ ρ, ∃ w, P w ∧ (method.made v).perform ρ = (.ok w, ρ))
    (hreading : ∀ v, (method.made v).IsReading) (hb : σ.get? b = some (.list xs))
    (hxs : ∀ v ∈ xs, P v) : method.Circles σ l b xs where
  empty := by
    rintro rfl
    rw [hact, perform_appendFrom_nil hb]
  unending hne := by
    rw [hact]
    refine perform_appendFrom_own (fun v hv ρ => ?_) hreading hb hne
    obtain ⟨w, -, hw⟩ := hmake v (hxs v hv) ρ
    exact ⟨w, hw⟩
  endless hne limit := rounds_own hmake hb hxs (List.length_pos_iff.2 hne) limit
  other k vs hne hk limit hlimit := by
    rw [hact]
    exact perform_appendFrom_other hreading hne hb hk hlimit

/-- A text, a level or a style can always be noted, as a text. -/
theorem perform_noteOf_textual (hv : v.IsTextual) (ρ : Store) :
    ∃ w : Value, w.IsTextual ∧ (noteOf v).perform ρ = (.ok w, ρ) := by
  obtain ⟨s, hs⟩ : ∃ s, textOf ρ v = .ok s := by
    cases v with
    | text s => exact ⟨s, textOf_text ρ s⟩
    | severity s => exact ⟨_, rfl⟩
    | style s => exact ⟨_, rfl⟩
    | _ => cases hv
  exact ⟨.text s, rfl, by rw [perform_noteOf, hs]; rfl⟩

section Anatomies

variable (ha : a.IsIn σ) (v : Value)
include ha

theorem perform_labelsEach : (Method.labelsEach.act (.object a.diagnostic) v).perform σ =
    (appendFrom (.object a.labelList) v Method.labelsEach.made).perform σ := by
  rw [Method.act, withLabelsEach, perform_bind_of_ok _ (perform_receiverFields ha.diagnostic _)]
  rfl

theorem perform_notesEach : (Method.notesEach.act (.object a.diagnostic) v).perform σ =
    (appendFrom (.object a.noteList) v Method.notesEach.made).perform σ := by
  rw [Method.act, withNotesEach, perform_bind_of_ok _ (perform_receiverFields ha.diagnostic _)]
  rfl

theorem perform_notes : (Method.notes.act (.object a.diagnostic) v).perform σ =
    (appendFrom (.object a.noteList) v Method.notes.made).perform σ :=
  (perform_withNotes_eq ha.diagnostic ha.noteList v).trans (perform_notesEach ha v)

end Anatomies

/-- **The own list.** A list of labels can be appended to itself at once, which doubles it and gives
the diagnostic back. One at a time it cannot, and neither can a list of notes: without items nothing
happens, but otherwise the loop does not find the end, however many rounds it goes. -/
theorem appending_own_list (hd : σ.get? l = some (.diagnostic d)) (hsound : σ.IsSound (.object l)) :
    (∃ a : Anatomy, a.diagnostic = l ∧ a.IsIn σ) ∧
    ∀ a : Anatomy, a.diagnostic = l → a.IsIn σ →
      ((withLabels (.object l) (.object a.labelList)).perform σ =
          (.ok (), σ.update a.labelList (.list (a.labels ++ a.labels))) ∧
        ∀ names r s ρ τ, (Literal.eval names r).perform ρ = (.ok (.object l), τ) →
          (Literal.eval names s).perform τ = (.ok (.object a.labelList), σ) →
          ((Method.labels.operation r s).act names).perform ρ =
            (Reply.ofReceiver (.object l)).perform
              (σ.update a.labelList (.list (a.labels ++ a.labels)))) ∧
      Method.labelsEach.Circles σ l a.labelList a.labels ∧
      Method.notes.Circles σ l a.noteList a.notes ∧
      Method.notesEach.Circles σ l a.noteList a.notes := by
  refine ⟨hsound.exists_anatomy hd, ?_⟩
  rintro a rfl ha
  have hdoubled : (withLabels (.object a.diagnostic) (.object a.labelList)).perform σ =
      (.ok (), σ.update a.labelList (.list (a.labels ++ a.labels))) := by
    rw [withLabels, perform_bind_of_ok _ (perform_receiverFields ha.diagnostic _),
      perform_extend ha.labelList (elements?_of_object ha.labelList), leave_list ha.labelList]
    rfl
  refine ⟨⟨hdoubled, fun names r s ρ τ hr hs => ?_⟩, ?_, ?_, ?_⟩
  · rw [Method.labels.perform_operation hr hs]
    exact perform_bind_of_ok _ hdoubled
  · exact Method.circles (P := fun _ => True) (perform_labelsEach ha)
      (fun v _ ρ => ⟨v, trivial, rfl⟩) (fun _ _ => rfl) ha.labelList fun _ _ => trivial
  · exact Method.circles (perform_notes ha) (fun _ hv ρ => perform_noteOf_textual hv ρ)
      isReading_noteOf ha.noteList ha.notes
  · exact Method.circles (perform_notesEach ha) (fun _ hv ρ => perform_noteOf_textual hv ρ)
      isReading_noteOf ha.noteList ha.notes

/-- Two labels become four at once, and one at a time there is no end. -/
theorem appending_own_list_shared :
    (withLabels (.object 4) (.object 2)).perform sharedStore =
        (.ok (), sharedStore.update 2 (.list (List.replicate 4 (.object 1)))) ∧
      ((withLabelsEach (.object 4) (.object 2)).perform sharedStore).1 = .error .unending ∧
      ∀ limit, ((rounds (.object 2) (.object 2) pure limit 0).perform sharedStore).1 = .ok false := by
  obtain ⟨⟨hdoubled, -⟩, hlabels, -, -⟩ :=
    (appending_own_list (σ := sharedStore) (l := 4) rfl sharedAnatomy_isIn.isSound).2 sharedAnatomy
      rfl sharedAnatomy_isIn
  refine ⟨hdoubled, hlabels.unending nofun, fun limit => ?_⟩
  obtain ⟨more, -, hrounds⟩ := hlabels.endless nofun limit
  exact congrArg Prod.fst hrounds

end Builder

end Diagnostics
