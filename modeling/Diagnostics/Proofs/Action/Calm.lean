import Diagnostics.Proofs.Store.Calm
import Diagnostics.Session

/-!
# Actions that leave records alone

An action is calm when it leaves the records of every store as they are, whether it fails or not.
One calm action after another is calm (`IsCalm.bind`), so it is shown function by function that
reading attributes and evaluating literals are calm. Some actions only look at a store and do not
change it at all (`IsReading`).
-/

namespace Diagnostics

/-- Whether an action changes no record and makes none. -/
def Action.IsCalm {α : Type} (a : Action α) : Prop :=
  ∀ σ : Store, σ.Calm (a.perform σ).2

/-- Whether an action leaves every store as it is. -/
def Action.IsReading {α : Type} (a : Action α) : Prop := ∀ σ : Store, (a.perform σ).2 = σ

namespace Action

variable {α β : Type} {a : Action α} {f : α → Action β}

/-- What leaves the whole store as it is leaves the records as they are. -/
theorem IsReading.isCalm (ha : a.IsReading) : a.IsCalm := by
  intro σ
  rw [ha σ]
  exact .refl σ

/-- An action that only looks gives the store back with its result. -/
theorem IsReading.perform_eq (ha : a.IsReading) (σ : Store) :
    a.perform σ = ((a.perform σ).1, σ) := Prod.ext rfl (ha σ)

/-- Looking first and looking then is looking. -/
theorem IsReading.bind (ha : a.IsReading) (hf : ∀ x, (f x).IsReading) : (a >>= f).IsReading := by
  intro σ
  rw [perform_bind, ha.perform_eq σ]
  rcases (a.perform σ).1 with e | x
  · rfl
  · exact hf x σ

/-- One calm action after another is calm, also where the first fails and the other is never begun.
-/
theorem IsCalm.bind (ha : a.IsCalm) (hf : ∀ x, (f x).IsCalm) : (a >>= f).IsCalm := by
  intro σ
  have hfirst := ha σ
  rw [perform_bind]
  rcases hresult : a.perform σ with ⟨e | x, τ⟩
  · rw [hresult] at hfirst
    exact hfirst
  · rw [hresult] at hfirst
    exact hfirst.trans (hf x τ)

/-- The store that a calm action leads to differs from the one before in no record. -/
theorem IsCalm.perform_calm {σ τ : Store} {r : Except Failure α} (ha : a.IsCalm)
    (h : a.perform σ = (r, τ)) : σ.Calm τ := by
  have hcalm := ha σ
  rwa [h] at hcalm

theorem isCalm_pure (x : α) : (pure x : Action α).IsCalm := fun σ => .refl σ

/-- A failure changes nothing. -/
theorem isCalm_throw (e : Failure) : (throw e : Action α).IsCalm := fun σ => .refl σ

theorem isCalm_ofExcept (r : Except Failure α) : (ofExcept r).IsCalm := fun σ => .refl σ

theorem isCalm_get : (get : Action Store).IsCalm := fun σ => .refl σ

theorem isCalm_cell? (v : Value) : (cell? v).IsCalm := fun σ => .refl σ

theorem isCalm_typeName (v : Value) : (typeName v).IsCalm := fun σ => .refl σ

/-- Telling a one-shot sequence what is left of it changes nothing else. -/
theorem isCalm_leave (v : Value) (unread : List Value) : (leave v unread).IsCalm :=
  fun σ => .leave σ v unread

/-- A new object that is no record is no change to records. -/
theorem isCalm_new {c : Cell} (hc : c.fields? = none) : (new c).IsCalm := fun σ => .alloc σ hc

/-- A value that is no number is new without being an object. -/
theorem isCalm_number (x : Binary64) : (number x).IsCalm := by
  intro σ
  cases x with
  | nan => exact .newNan σ
  | infinite => exact .refl σ
  | finite => exact .refl σ

/-- A value is viewed in the store as it is, whether it shows or not. -/
theorem isReading_view (v : Value) : (view v).IsReading := by
  intro σ
  simp only [perform, view, ExceptT.run, StateT.run]
  cases σ.view v <;> rfl

theorem isCalm_view (v : Value) : (view v).IsCalm := (isReading_view v).isCalm

/-- The elements of a value come with the store that holds them. -/
theorem perform_elements_of_some {σ τ : Store} {v : Value} {vs : List Value}
    (h : σ.elements? v = some (vs, τ)) :
    (elements v).perform σ = (.ok vs, τ) := by
  simp only [perform, elements, ExceptT.run, StateT.run, h]

/-- A value without elements fails with the name of its type. -/
theorem perform_elements_of_none {σ : Store} {v : Value} (h : σ.elements? v = none) :
    (elements v).perform σ = (.error (.notIterable (σ.typeName v)), σ) := by
  simp only [perform, elements, ExceptT.run, StateT.run, h]

/-- To give its elements a value makes pairs at most, which are no records. -/
theorem isCalm_elements (v : Value) : (elements v).IsCalm := by
  intro σ
  simp only [perform, elements, ExceptT.run, StateT.run]
  rcases helements : σ.elements? v with _ | ⟨vs, τ⟩
  · exact .refl σ
  · exact .of_elements? helements

/-- What is calm once is calm when it is performed once more. -/
theorem isCalm_again (ha : a.IsCalm) : (again a).IsCalm := by
  intro σ
  have hfirst := ha σ
  simp only [perform, again, ExceptT.run, StateT.run] at hfirst ⊢
  split
  · next τ hfail =>
    rw [hfail] at hfirst
    exact hfirst.trans (ha τ)
  · exact hfirst

/-- The failure to find an attribute names the type of the value and changes nothing. -/
theorem isReading_noAttribute (v : Value) (name : String) :
    (noAttribute v name : Action α).IsReading := fun _ => rfl

theorem isCalm_noAttribute (v : Value) (name : String) : (noAttribute v name : Action α).IsCalm :=
  (isReading_noAttribute v name).isCalm

theorem isReading_plainText (v : Value) : (plainText v).IsReading := fun _ => rfl

theorem isCalm_plainText (v : Value) : (plainText v).IsCalm := (isReading_plainText v).isCalm

theorem isCalm_literalText (v : Value) : (literalText v).IsCalm := fun σ => .refl σ

/-- Taking all elements uses up a one-shot sequence, which is no record. -/
theorem isCalm_takeAll (v : Value) : (takeAll v).IsCalm :=
  (isCalm_elements v).bind fun vs => (isCalm_leave v []).bind fun _ => isCalm_pure vs

theorem isCalm_viewAll (vs : List Value) : (viewAll vs).IsCalm := by
  induction vs with
  | nil => exact isCalm_pure []
  | cons v vs ih => exact (isCalm_view v).bind fun _ => ih.bind fun _ => isCalm_pure _

/-- An action on each of the elements is calm if it is for every value. -/
theorem isCalm_takeEach (source : Value) {f : Value → Action β} (hf : ∀ v, (f v).IsCalm)
    (vs : List Value) : (takeEach source f vs).IsCalm := by
  induction vs with
  | nil => exact isCalm_pure []
  | cons v vs ih =>
    refine (isCalm_leave source vs).bind fun _ => (hf v).bind fun _ => ih.bind fun _ => ?_
    exact isCalm_pure _

/-- A filter is calm if the test for each value is. -/
theorem isCalm_filterAuxM {f : α → Action Bool} (hf : ∀ x, (f x).IsCalm) (xs kept : List α) :
    (xs.filterAuxM f kept).IsCalm := by
  induction xs generalizing kept with
  | nil => exact isCalm_pure kept
  | cons x xs ih => exact (hf x).bind fun b => ih _

end Action

open Diagnostics.Action

/-! ## Attributes -/

namespace Attribute

/-- An attribute that is stored is looked up and nothing is changed. -/
theorem isReading_stored (v : Value) (name : String) : (stored v name).IsReading := by
  intro σ
  simp only [perform, stored, ExceptT.run, StateT.run]
  cases stored? σ v name <;> rfl

theorem isCalm_stored (v : Value) (name : String) : (stored v name).IsCalm :=
  (isReading_stored v name).isCalm

/-- The difference of two sets is a new set. -/
theorem isCalm_setDifference (xs ys : List Value) : (setDifference xs ys).IsCalm := by
  refine (isCalm_viewAll ys).bind fun others => ?_
  refine IsCalm.bind ?_ fun kept => isCalm_new rfl
  refine IsCalm.bind ?_ fun kept => isCalm_pure _
  exact isCalm_filterAuxM (fun x => (isCalm_view x).bind fun _ => isCalm_pure _) xs []

/-- The difference of two offsets is a number or a new set, but no record. -/
theorem isCalm_difference (a b : Value) : (difference a b).IsCalm := by
  refine (isCalm_cell? a).bind fun c => (isCalm_cell? b).bind fun d => ?_
  split
  · exact isCalm_pure _
  · exact (isCalm_ofExcept _).bind fun x => (isCalm_ofExcept _).bind fun y => isCalm_number _
  · exact isCalm_setDifference _ _
  · exact (isCalm_typeName a).bind fun _ => (isCalm_typeName b).bind fun _ => isCalm_throw _

theorem isCalm_length (r : RangeFields) : (length r).IsCalm := by
  refine (isCalm_difference _ _).bind fun d => (isCalm_view d).bind fun _ => ?_
  exact (isCalm_ofExcept _).bind fun _ => isCalm_pure _

theorem isCalm_isEmpty (r : RangeFields) : (isEmpty r).IsCalm :=
  (isCalm_view _).bind fun _ => (isCalm_view _).bind fun _ => isCalm_ofExcept _

/-- The labels of a style are found by looking at each label in turn. -/
theorem isCalm_labelsOf (style : LabelStyle) (source : Value) : (labelsOf style source).IsCalm := by
  refine (isCalm_elements source).bind fun labels => ?_
  exact (isCalm_takeEach source (isCalm_stored · "style") labels).bind fun _ => isCalm_pure _

/-- The rank of a label is read from its style. -/
theorem isCalm_styleRank (label : Value) : (styleRank label).IsCalm :=
  (isCalm_stored label _).bind fun style => isCalm_stored style _

/-- The top rank is found by looking at each label in turn. -/
theorem isCalm_topRank (source : Value) : (topRank source).IsCalm := by
  refine (isCalm_elements source).bind fun labels => ?_
  refine (isCalm_takeEach source isCalm_styleRank labels).bind fun ranks => ?_
  split
  · exact isCalm_throw _
  · exact isCalm_pure _

/-- Two starts are compared by what they show. -/
theorem isCalm_lesser (least? : Option Value) (start : Value) : (lesser least? start).IsCalm := by
  cases least? with
  | none => exact isCalm_pure start
  | some least =>
    refine (isCalm_view start).bind fun _ => (isCalm_view least).bind fun _ => ?_
    exact (isCalm_ofExcept _).bind fun _ => isCalm_pure _

/-- The search for the least start only looks at labels, whatever it has found so far. -/
theorem isCalm_leastStart (source : Value) (rank : Int) (least? : Option Value)
    (labels : List Value) : (leastStart source rank least? labels).IsCalm := by
  induction labels generalizing least? with
  | nil =>
    cases least? with
    | none => exact isCalm_throw _
    | some least => exact isCalm_pure least
  | cons l ls ih =>
    rw [leastStart]
    refine (isCalm_leave source ls).bind fun _ => (isCalm_styleRank l).bind fun r => ?_
    split
    · refine (isCalm_stored l _).bind fun range => (isCalm_stored range _).bind fun start => ?_
      exact (isCalm_lesser least? start).bind fun _ => ih _
    · exact ih least?

/-- A position is found by going through the labels twice. -/
theorem isCalm_positionOf (labels : Value) : (positionOf labels).IsCalm := by
  refine isCalm_get.bind fun σ => ?_
  split
  · refine (isCalm_topRank labels).bind fun rank => (isCalm_elements labels).bind fun ls => ?_
    exact isCalm_leastStart labels rank none ls
  · exact isCalm_pure _

/-- Reading an attribute makes new lists and sets at most. -/
theorem isCalm_read (v : Value) (name : String) : (read v name).IsCalm := by
  refine (isCalm_cell? v).bind fun c? => ?_
  split
  · exact isCalm_length _
  · exact (isCalm_isEmpty _).bind fun _ => isCalm_pure _
  · exact isCalm_pure _
  · exact (isCalm_again (isCalm_labelsOf _ _)).bind fun _ => isCalm_new rfl
  · exact (isCalm_again (isCalm_labelsOf _ _)).bind fun _ => isCalm_new rfl
  · exact isCalm_again (isCalm_positionOf _)
  · exact isCalm_stored v name

end Attribute

/-! ## Literals -/

namespace Literal

/-- An item is found or it is missed. -/
theorem isCalm_found (sequence? : Option String) (item? : Option Value) :
    (found sequence? item?).IsCalm := by
  cases item? with
  | none => exact isCalm_throw _
  | some v => exact isCalm_pure v

/-- An item is read from a cell, or is a part of a text or of bytes. -/
theorem isCalm_itemAt (v : Value) (i : Nat) : (itemAt v i).IsCalm := by
  refine (isCalm_cell? v).bind fun c? => ?_
  split
  · exact isCalm_found _ _
  · exact isCalm_found _ _
  · exact isCalm_found _ _
  · exact isCalm_found _ _
  · exact isCalm_found _ _
  · exact isCalm_found _ _
  · exact isCalm_throw _
  · exact (isCalm_typeName _).bind fun _ => isCalm_throw _

/-- A step along a path reads an attribute or an item. -/
theorem isCalm_follow (v : Value) : (hop : Hop) → (follow v hop).IsCalm
  | .attribute name => Attribute.isCalm_read v name
  | .item i => isCalm_itemAt v i

/-- A path is followed step by step. -/
theorem isCalm_followAll (v : Value) (path : List Hop) : (followAll v path).IsCalm := by
  induction path generalizing v with
  | nil => exact isCalm_pure v
  | cons hop hops ih => exact (isCalm_follow v hop).bind fun w => ih w

/-- The elements of a set are compared by what they show. -/
theorem isCalm_elementsOfSet (vs : List Value) : (elementsOfSet vs).IsCalm := by
  refine (isCalm_viewAll vs).bind fun ds => ?_
  dsimp only
  split
  on_goal 1 => refine (isCalm_throw _).bind fun _ => ?_
  -- sorted or not, what is kept is given
  all_goals
    split
    · exact isCalm_pure _
    · exact isCalm_pure _

mutual

/-- What a literal describes may be a new object, but no record. -/
theorem isCalm_eval (names : Names) : (l : Literal) → (eval names l).IsCalm
  | .none => isCalm_pure _
  | .bool _ => isCalm_pure _
  | .int _ => isCalm_pure _
  | .real x => isCalm_number x
  | .text _ => isCalm_pure _
  | .bytes _ => isCalm_pure _
  | .severity _ => isCalm_pure _
  | .style _ => isCalm_pure _
  | .list items => (isCalm_evalAll names items).bind fun _ => isCalm_new rfl
  | .tuple items => (isCalm_evalAll names items).bind fun _ => isCalm_new rfl
  | .table entries => (isCalm_evalEntries names entries).bind fun _ => isCalm_new rfl
  | .set items => (isCalm_evalAll names items).bind fun vs =>
      (isCalm_elementsOfSet vs).bind fun _ => isCalm_new rfl
  | .iterator items => (isCalm_evalAll names items).bind fun _ => isCalm_new rfl
  | .range .. => isCalm_new rfl
  | .slice start stop step => (isCalm_eval names start).bind fun _ =>
      (isCalm_eval names stop).bind fun _ => (isCalm_eval names step).bind fun _ => isCalm_new rfl
  | .buffer _ => isCalm_new rfl
  | .reference name path => by
    rw [eval]
    split
    · exact isCalm_followAll _ path
    · exact isCalm_throw _

/-- Literals in a row make no records. -/
theorem isCalm_evalAll (names : Names) : (ls : List Literal) → (evalAll names ls).IsCalm
  | [] => isCalm_pure []
  | l :: ls => (isCalm_eval names l).bind fun _ =>
      (isCalm_evalAll names ls).bind fun _ => isCalm_pure _

/-- Literals under keys make no records. -/
theorem isCalm_evalEntries (names : Names) :
    (es : List (String × Literal)) → (evalEntries names es).IsCalm
  | [] => isCalm_pure []
  | (_, l) :: es => (isCalm_eval names l).bind fun _ =>
      (isCalm_evalEntries names es).bind fun _ => isCalm_pure _

end

end Literal

end Diagnostics
