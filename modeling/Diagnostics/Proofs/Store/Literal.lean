import Diagnostics.Proofs.Store.Reach
import Diagnostics.Store.Literal

/-!
# When values can be written out

Writing a value out goes from objects to their parts, and into no collection that it is in already
(`Store.Way`). It fails if such a way leads to an integer with too many digits, or takes as many calls
as may be inside each other, and for no other reason (`Store.Obstructs`, `Store.literal_endsBy`). A
value that holds itself has ways without end only if no collection is on them.
-/

namespace Diagnostics

variable {α β : Type} {R S : Failure → Prop}

/-- Whether something fails for one of some reasons, and does not fail where there is none. -/
inductive EndsBy (R : Failure → Prop) : Except Failure α → Prop
  | result (clear : ∀ e, ¬ R e) (a : α) : EndsBy R (.ok a)
  | failure {e : Failure} (reason : R e) : EndsBy R (.error e)

namespace EndsBy

theorem iff {r : Except Failure α} (h : EndsBy R r) (hRS : ∀ e, R e ↔ S e) : EndsBy S r :=
  (funext fun e => propext (hRS e) : R = S) ▸ h

/-- What is made of a result without failing. -/
theorem map {r : Except Failure α} (f : α → β) (h : EndsBy R r) :
    EndsBy R (r >>= fun a => pure (f a)) := by
  cases h with
  | result clear a => exact .result clear (f a)
  | failure reason => exact .failure reason

/-- A row fails when one of its items does. -/
theorem mapM {f : α → Except Failure β} {R : α → Failure → Prop} {as : List α}
    (hf : ∀ a ∈ as, EndsBy (R a) (f a)) : EndsBy (fun e => ∃ a ∈ as, R a e) (as.mapM f) := by
  induction as with
  | nil =>
    rw [List.mapM_nil]
    exact .result (by simp) []
  | cons a as ih =>
    obtain ⟨ha, has⟩ := List.forall_mem_cons.1 hf
    have hrest := ih has
    rw [List.mapM_cons]
    generalize f a = first at ha ⊢
    generalize as.mapM f = rest at hrest ⊢
    cases ha with
    | failure reason => exact .failure ⟨a, List.mem_cons_self, reason⟩
    | result clear b =>
      refine (hrest.map (b :: ·)).iff fun e => ?_
      simp [clear e]

end EndsBy

theorem mapM_congr {f g : α → Except Failure β} {as : List α} (h : ∀ a ∈ as, f a = g a) :
    as.mapM f = as.mapM g := by
  induction as with
  | nil => rw [List.mapM_nil, List.mapM_nil]
  | cons a as ih =>
    obtain ⟨ha, has⟩ := List.forall_mem_cons.1 h
    rw [List.mapM_cons, List.mapM_cons, ha, ih has]

namespace Store

variable {σ τ : Store} {room : Nat} {opened : List Loc} {v w : Value} {l : Loc} {c : Cell}
  {e : Failure}

/-! ## Ways -/

/-- Whether a value is written inside of another one, which is itself written inside of the objects
`opened`, and how many calls are then around the call for it, from that of the other one on. -/
inductive Way (σ : Store) : (opened : List Loc) → Value → Nat → Value → Prop
  | here (opened : List Loc) (v : Value) : Way σ opened v 0 v
  | into {opened : List Loc} {l : Loc} {c : Cell} {p : List Char × Value} {n : Nat} {w : Value}
    (cell : σ.get? l = some c) (new : l ∈ opened → c.again? = none) (part : p ∈ (c.frame l).parts)
    (rest : Way σ (l :: opened) p.2 n w) :
    Way σ opened (.object l) (n + c.between σ.stack + 1) w

/-- Why a value cannot be written inside of the objects `opened`, when `room` calls may be inside each
other: a way leads to too long an integer, or there are too many calls on a way. -/
inductive Obstructs (σ : Store) (room : Nat) (opened : List Loc) (v : Value) : Failure → Prop
  | tooLong {n : Nat} {k : Int} (way : σ.Way opened v n (.int k)) (inside : n < room)
    (long : digitLimit < Digits.count k.natAbs) : Obstructs σ room opened v .integerTooLong
  | tooDeep {n : Nat} {w : Value} (way : σ.Way opened v n w)
    (outside : room ≤ n + w.calls σ.stack) : Obstructs σ room opened v .tooManyCalls

/-- What obstructs an object obstructs one of its parts. -/
theorem obstructs_iff_parts (hl : σ.get? l = some c) (new : l ∈ opened → c.again? = none) :
    σ.Obstructs (room + 1) opened (.object l) e ↔
      ∃ p ∈ (c.frame l).parts, σ.Obstructs (room - c.between σ.stack) (l :: opened) p.2 e := by
  constructor
  · intro h
    cases h with
    | tooLong way inside long =>
      cases way with
      | into cell _ part rest =>
        obtain rfl := Option.some.inj (hl.symm.trans cell)
        exact ⟨_, part, .tooLong rest (by omega) long⟩
    | tooDeep way outside =>
      cases way with
      | here => exact absurd outside (Nat.not_succ_le_zero room)
      | into cell _ part rest =>
        obtain rfl := Option.some.inj (hl.symm.trans cell)
        exact ⟨_, part, .tooDeep rest (by omega)⟩
  · rintro ⟨p, hp, h⟩
    cases h with
    | tooLong way inside long => exact .tooLong (.into hl new hp way) (by omega) long
    | tooDeep way outside => exact .tooDeep (.into hl new hp way) (by omega)

/-- Nothing obstructs a collection that is cut short. -/
theorem not_obstructs_of_again (hl : σ.get? l = some c) (hopened : l ∈ opened)
    (hagain : c.again? ≠ none) : ¬ σ.Obstructs (room + 1) opened (.object l) e := by
  intro h
  cases h with
  | tooLong way =>
    cases way with
    | into cell new =>
      obtain rfl := Option.some.inj (hl.symm.trans cell)
      exact hagain (new hopened)
  | tooDeep way outside =>
    cases way with
    | here => exact absurd outside (Nat.not_succ_le_zero room)
    | into cell new =>
      obtain rfl := Option.some.inj (hl.symm.trans cell)
      exact hagain (new hopened)

/-- What has no parts is obstructed by itself alone. -/
theorem Way.of_cell?_eq_none {n : Nat} (h : σ.Way opened v n w) (hv : σ.cell? v = none) :
    n = 0 ∧ w = v := by
  cases h with
  | here => exact ⟨rfl, rfl⟩
  | into cell => cases hv.symm.trans cell

theorem leaf_int (σ : Store) (k : Int) : σ.leaf (.int k) = Data.integerText k := by
  simp only [leaf, unfold, Data.literal]

theorem leaf_endsBy (hv : σ.cell? v = none) (hcalls : v.calls σ.stack ≤ room) :
    EndsBy (σ.Obstructs (room + 1) opened v) (σ.leaf v) := by
  have hdeep : ¬ σ.Obstructs (room + 1) opened v .tooManyCalls := by
    intro h
    cases h with
    | tooDeep way outside =>
      obtain ⟨rfl, rfl⟩ := way.of_cell?_eq_none hv
      omega
  have short (hint : ∀ k, v ≠ .int k) (ts : List Char) :
      EndsBy (σ.Obstructs (room + 1) opened v) (.ok ts) := by
    refine .result (fun e he => ?_) ts
    cases he with
    | tooLong way => exact hint _ (way.of_cell?_eq_none hv).2.symm
    | tooDeep way outside => exact hdeep (.tooDeep way outside)
  cases v with
  | int k =>
    rw [leaf_int, Data.integerText]
    split
    · next hk =>
      refine .result (fun e he => ?_) _
      cases he with
      | tooLong way _ long =>
        cases (way.of_cell?_eq_none hv).2
        exact Nat.not_lt.2 hk long
      | tooDeep way outside => exact hdeep (.tooDeep way outside)
    · next hk => exact .failure (.tooLong (.here _ _) (Nat.succ_pos _) (Nat.not_le.1 hk))
  | _ => exact short (by simp) _

/-! ## Writing out -/

theorem literal_leaf (hv : σ.cell? v = none) (room : Nat) (opened : List Loc) :
    σ.literal (room + 1) 0 opened v =
      if room < v.calls σ.stack then .error .tooManyCalls else σ.leaf v := by
  rw [literal.eq_4]
  intro l c _ hcell
  cases hv.symm.trans hcell

theorem literal_object (hl : σ.get? l = some c) (room : Nat) (opened : List Loc) :
    σ.literal (room + 1) 0 opened (.object l) =
      match if l ∈ opened then c.again? else none with
      | some text => .ok text
      | none => (do return (c.frame l).fill (← σ.partLiterals room opened l c)) := by
  have hcell : σ.cell? (.object l) = some c := hl
  simp only [literal, hcell]
  rfl

/-- **Writing out.** A value is written out unless something obstructs it, and that is then the
failure. -/
theorem literal_endsBy (σ : Store) (room waiting : Nat) (opened : List Loc) (v : Value) :
    EndsBy (σ.Obstructs (room - waiting) opened v) (σ.literal room waiting opened v) := by
  induction room generalizing waiting opened v with
  | zero =>
    rw [literal, Nat.zero_sub]
    exact .failure (.tooDeep (.here _ _) (Nat.zero_le _))
  | succ room ih =>
    cases waiting with
    | succ waiting =>
      rw [literal, Nat.add_sub_add_right]
      exact ih waiting opened v
    | zero =>
      rw [Nat.sub_zero]
      rcases hcell : σ.cell? v with _ | c
      · rw [literal_leaf hcell]
        split
        · next hcalls => exact .failure (.tooDeep (.here _ _) (by omega))
        · next hcalls => exact leaf_endsBy hcell (Nat.not_lt.1 hcalls)
      · obtain ⟨l, rfl, hl⟩ := exists_of_cell? hcell
        rw [literal_object hl]
        split
        · next text hagain =>
          obtain ⟨hopened, hagain⟩ := Option.ite_none_right_eq_some.1 hagain
          refine .result (fun e => not_obstructs_of_again hl hopened ?_) text
          rw [hagain]
          exact Option.some_ne_none text
        · next hagain =>
          have new : l ∈ opened → c.again? = none := fun hopened => by rwa [if_pos hopened] at hagain
          refine (EndsBy.map _ (EndsBy.mapM fun p _ => (ih _ _ _).map _)).iff fun e => ?_
          exact (obstructs_iff_parts hl new).symm

/-- Why a value has no literal form. -/
def Hinders (σ : Store) (v : Value) : Failure → Prop := σ.Obstructs σ.stack.room [] v

theorem literalText_endsBy (σ : Store) (v : Value) : EndsBy (σ.Hinders v) (σ.literalText v) :=
  (literal_endsBy σ σ.stack.room 0 [] v).map String.ofList

/-! ## What is written -/

/-- The parts of an object show with it, or are no objects. -/
theorem mem_shown_of_mem_parts {p : List Char × Value} (h : p ∈ (c.frame l).parts) :
    p.2 ∈ c.shown ∨ ∀ k, p.2 ≠ .object k := by
  have item : ∀ {items : List Value}, p ∈ Cell.itemParts items → p.2 ∈ items := by
    intro items hp
    obtain ⟨v, hv, rfl⟩ := List.mem_map.1 hp
    exact hv
  have field : ∀ {name : String} {fields : List (String × Value)},
      p ∈ (Frame.record l name fields).parts → (∃ e ∈ fields, p.2 = e.2) ∨ ∀ k, p.2 ≠ .object k := by
    intro name fields hp
    obtain ⟨e, he, rfl⟩ := List.mem_map.1 hp
    dsimp only
    split
    · exact .inr (by simp)
    · exact .inl ⟨e, he, rfl⟩
  cases c with
  | list | tuple | slice => exact .inl (item h)
  | table entries =>
    obtain ⟨e, he, rfl⟩ := List.mem_map.1 h
    exact .inl (List.mem_map_of_mem he)
  | set items =>
    cases items with
    | nil => cases h
    | cons => exact .inl (item h)
  | iterator | buffer => cases h
  | range start stop step =>
    obtain ⟨n, -, hn⟩ := List.mem_map.1 (item h)
    exact .inr (by simp [← hn])
  | byteRange | label | diagnostic =>
    refine (field h).imp ?_ id
    rintro ⟨e, he, hp⟩
    rw [hp]
    simp only [Cell.fields?, Option.getD_some, List.mem_cons, List.not_mem_nil, or_false] at he
    rcases he with rfl | rfl | rfl | rfl | rfl <;> simp [Cell.shown, Cell.held]

/-- What shows with a part shows with the object. -/
theorem Leads.of_mem_parts {p : List Char × Value} {k : Loc} (hl : σ.get? l = some c)
    (hp : p ∈ (c.frame l).parts) (hk : σ.Leads Cell.shown p.2 k) :
    σ.Leads Cell.shown (.object l) k := by
  rcases mem_shown_of_mem_parts hp with hmem | hplain
  · exact .through hl hmem hk
  · obtain ⟨m, hm⟩ := hk.exists_object
    exact absurd hm (hplain m)

/-- What is written of a value depends on the objects that show with it, and on which of them it is
written inside of. -/
theorem literal_congr (hstack : τ.stack = σ.stack) (room waiting : Nat) {opened opened' : List Loc}
    (hshown : ∀ k, σ.Leads Cell.shown v k →
      (∃ c, σ.get? k = some c ∧ Cell.Calm (some c) (τ.get? k)) ∧ (k ∈ opened' ↔ k ∈ opened)) :
    τ.literal room waiting opened' v = σ.literal room waiting opened v := by
  induction room generalizing waiting opened opened' v with
  | zero => rw [literal, literal]
  | succ room ih =>
    cases waiting with
    | succ waiting =>
      rw [literal, literal]
      exact ih waiting hshown
    | zero =>
      cases v with
      | object l =>
        obtain ⟨⟨c, hl, hcalm⟩, hopened⟩ := hshown l (.here l)
        generalize hl' : τ.get? l = after at hcalm
        cases hcalm with
        | used vs ws =>
          rw [literal_object hl, literal_object hl']
          simp only [Cell.again?, ite_self]
          rfl
        | same =>
          have hparts : τ.partLiterals room opened' l c = σ.partLiterals room opened l c := by
            refine mapM_congr fun p hp => ?_
            have hinside : ∀ k, σ.Leads Cell.shown p.2 k →
                (∃ d, σ.get? k = some d ∧ Cell.Calm (some d) (τ.get? k)) ∧
                  (k ∈ l :: opened' ↔ k ∈ l :: opened) := by
              intro k hk
              obtain ⟨hcell, hiff⟩ := hshown k (hk.of_mem_parts hl hp)
              exact ⟨hcell, by rw [List.mem_cons, List.mem_cons, hiff]⟩
            rw [hstack, ih _ hinside]
          simp only [literal_object hl, literal_object hl', hparts, hopened]
      | _ =>
        rw [literal_leaf rfl, literal_leaf rfl, hstack]
        rfl

theorem plain_object (hl : σ.get? l = some c) : σ.plain (.object l) =
    if c.fields?.isSome then
      (do return Data.join [' '] (← σ.partLiterals (σ.stack.room - 1) [] l c))
    else σ.literal σ.stack.room 0 [] (.object l) := by
  have hcell : σ.cell? (.object l) = some c := hl
  simp only [plain, hcell]

/-- Whether the objects that show with a value are in another store what they are in this one, but
for one-shot sequences, and writing takes the calls that it takes here. -/
structure LooksSame (σ τ : Store) (v : Value) : Prop where
  stack_eq : τ.stack = σ.stack
  cells : ∀ k, σ.Leads Cell.shown v k → ∃ c, σ.get? k = some c ∧ Cell.Calm (some c) (τ.get? k)

theorem LooksSame.view_eq (h : σ.LooksSame τ v) : τ.view v = σ.view v := view_eq_of_shown h.cells

theorem LooksSame.plain_eq (h : σ.LooksSame τ v) : τ.plain v = σ.plain v := by
  have hliteral : τ.literal τ.stack.room 0 [] v = σ.literal σ.stack.room 0 [] v := by
    rw [h.stack_eq]
    exact literal_congr h.stack_eq _ _ fun k hk => ⟨h.cells k hk, .rfl⟩
  cases v with
  | object l =>
    obtain ⟨c, hl, hcalm⟩ := h.cells l (.here l)
    generalize hl' : τ.get? l = after at hcalm
    cases hcalm with
    | used vs ws => rwa [plain_object hl, plain_object hl']
    | same =>
      have hparts : τ.partLiterals (τ.stack.room - 1) [] l c =
          σ.partLiterals (σ.stack.room - 1) [] l c := by
        refine mapM_congr fun p hp => ?_
        rw [h.stack_eq, literal_congr h.stack_eq]
        exact fun k hk => ⟨h.cells k (hk.of_mem_parts hl hp), .rfl⟩
      rw [plain_object hl, plain_object hl', hparts, hliteral]
  | text | severity | style => rfl
  | _ => exact hliteral

/-- The plain form of a collection does not depend on where it lies, if it does not hold itself. -/
theorem plain_moved {k : Loc} (hstack : τ.stack = σ.stack) (hk : σ.get? k = some c)
    (hl : τ.get? l = some c) (hc : c.fields? = none)
    (hshown : ∀ v ∈ c.shown, ∀ m, σ.Leads Cell.shown v m →
      (∃ d, σ.get? m = some d ∧ Cell.Calm (some d) (τ.get? m)) ∧ m ≠ k ∧ m ≠ l) :
    τ.plain (.object l) = σ.plain (.object k) := by
  have hframe : c.frame l = c.frame k := by
    cases c with
    | byteRange | label | diagnostic => cases hc
    | _ => rfl
  have hnone : ¬ c.fields?.isSome := by simp [hc]
  rw [plain_object hk, plain_object hl, if_neg hnone, if_neg hnone, hstack]
  rcases σ.stack.room with _ | room
  · rw [literal, literal]
  · rw [literal_object hk, literal_object hl, if_neg List.not_mem_nil, if_neg List.not_mem_nil]
    have hparts : τ.partLiterals room [] l c = σ.partLiterals room [] k c := by
      rw [partLiterals, partLiterals, hframe]
      refine mapM_congr fun p hp => ?_
      have hinside : ∀ m, σ.Leads Cell.shown p.2 m →
          (∃ d, σ.get? m = some d ∧ Cell.Calm (some d) (τ.get? m)) ∧ (m ∈ [l] ↔ m ∈ [k]) := by
        intro m hm
        rcases mem_shown_of_mem_parts hp with hmem | hplain
        · obtain ⟨hcell, hmk, hml⟩ := hshown _ hmem m hm
          exact ⟨hcell, by simp [hmk, hml]⟩
        · obtain ⟨j, hj⟩ := hm.exists_object
          exact absurd hj (hplain j)
      rw [hstack, literal_congr hstack _ _ hinside]
    rw [hparts, hframe]

end Store

end Diagnostics
