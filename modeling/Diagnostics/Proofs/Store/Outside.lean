import Diagnostics.Proofs.Store.Extends
import Diagnostics.Proofs.Store.Literal
import Diagnostics.Proofs.Store.Spared

/-!
# Outside some places

What is done to one object, say a diagnostic with its lists, leaves the rest as it is: outside the
places of that object nothing changes but for a source that is used up (`Store.CalmBut`). A value
that shows none of these places looks the same afterwards (`ShowsClear.looksSame`), so it has the
view and the plain form that it had. What it gives one by one is seen as before too, if it was not
itself the source (`OffersClear.offered_eq`): this holds of any way to look at values that goes by what
shows with them, and does not tell one new pair from another (`Sees`).
-/

namespace Diagnostics

variable {σ τ ρ : Store} {T U : Loc → Prop} {v w source : Value} {vs : List Value} {l : Loc}
  {c : Cell}

namespace Store

/-- Whether a store came from another without a change to anything that was there, outside of some
places. Only a source may be used up, if it is a one-shot sequence, and no record is new. -/
structure CalmBut (T : Loc → Prop) (source : Value) (σ τ : Store) : Prop where
  calm : ∀ l, ¬ T l → Cell.Calm (σ.get? l) (τ.get? l)
  kept : ∀ l c, ¬ T l → source ≠ .object l → σ.get? l = some c → τ.get? l = some c
  stack_eq : τ.stack = σ.stack

theorem CalmBut.refl (T : Loc → Prop) (source : Value) (σ : Store) : σ.CalmBut T source σ :=
  ⟨fun _ _ => .same _, fun _ _ _ _ hl => hl, rfl⟩

/-- Two changes in a row that spare what is outside do so together. -/
theorem CalmBut.trans (h : σ.CalmBut T v τ) (h' : τ.CalmBut T v ρ) : σ.CalmBut T v ρ where
  calm l hT := (h.calm l hT).trans (h'.calm l hT)
  kept l c hT hv hl := h'.kept l c hT hv (h.kept l c hT hv hl)
  stack_eq := h'.stack_eq.trans h.stack_eq

/-- What is changed may also be described more loosely. -/
theorem CalmBut.mono (h : σ.CalmBut T v τ) (hTU : ∀ l, T l → U l) : σ.CalmBut U v τ where
  calm l hU := h.calm l fun hT => hU (hTU l hT)
  kept l c hU := h.kept l c fun hT => hU (hTU l hT)
  stack_eq := h.stack_eq

/-- Replacing an object among the places changes nothing outside. -/
theorem calmBut_update (hl : T l) (v : Value) (c : Cell) : σ.CalmBut T v (σ.update l c) := by
  have same : ∀ k, ¬ T k → (σ.update l c).get? k = σ.get? k := by
    intro k hk
    refine get?_update_ne σ c ?_
    rintro rfl
    exact hk hl
  refine ⟨fun k hk => ?_, fun k d hk _ hd => (same k hk).trans hd, rfl⟩
  rw [same k hk]
  exact .same _

/-- Telling a source what is left of it is a change that it is there for. -/
theorem calmBut_leave (T : Loc → Prop) (σ : Store) (v : Value) (unread : List Value) :
    σ.CalmBut T v (σ.leave v unread) := by
  refine ⟨fun l _ => Calm.leave σ v unread l, fun l c _ hv hl => ?_, ?_⟩
  · rw [Store.leave.eq_def]
    split
    · next k before hk =>
      rw [get?_update_ne σ _ (fun hkl => hv (congrArg Value.object hkl)), hl]
    · exact hl
  · rw [Store.leave.eq_def]
    split <;> rfl

/-- Where objects were made only and no record is new, nothing is changed at all. -/
theorem Calm.calmBut (hcalm : σ.Calm τ) (hextends : σ.Extends τ) : σ.CalmBut T v τ :=
  ⟨fun l _ => hcalm l, fun _ _ _ _ hl => hextends.grows.get? hl, hextends.stack_eq⟩

/-- To give its elements a value changes nothing that is there. -/
theorem calmBut_of_elements? (T : Loc → Prop) (h : σ.elements? v = some (vs, τ)) (w : Value) :
    σ.CalmBut T w τ :=
  (Calm.of_elements? h).calmBut (.of_elements? h)

/-- What is no one-shot sequence stays as it is. -/
theorem CalmBut.get?_eq (h : σ.CalmBut T v τ) (hT : ¬ T l) (hl : σ.get? l = some c)
    (hc : ∀ vs, c ≠ .iterator vs) : τ.get? l = some c := by
  have hcalm := h.calm l hT
  rw [hl] at hcalm
  generalize τ.get? l = after at hcalm
  cases hcalm with
  | same => rfl
  | used before => exact absurd rfl (hc before)

/-! ## What looks the same -/

/-- What shows with a value that looks the same is there in both stores. -/
theorem LooksSame.lt_size (h : σ.LooksSame τ v) {k : Loc} (hk : σ.Leads Cell.shown v k) :
    k < σ.size ∧ k < τ.size := by
  obtain ⟨c, hc, hcalm⟩ := h.cells k hk
  refine ⟨lt_size_of_get? hc, ?_⟩
  generalize hafter : τ.get? k = after at hcalm
  cases hcalm with
  | same => exact lt_size_of_get? hafter
  | used => exact lt_size_of_get? hafter

/-- What looks the same does so still when objects are made. -/
theorem LooksSame.extends {σ' τ' : Store} (h : σ.LooksSame τ v) (hσ : σ.Extends σ')
    (hτ : τ.Extends τ') : σ'.LooksSame τ' v := by
  refine ⟨by rw [hτ.stack_eq, h.stack_eq, hσ.stack_eq], fun k hk => ?_⟩
  obtain ⟨c, hc, hcalm⟩ := h.cells k (hk.of_grows hσ.grows fun k hk => (h.lt_size hk).1)
  refine ⟨c, hσ.grows.get? hc, ?_⟩
  generalize hafter : τ.get? k = after at hcalm
  cases hcalm with
  | same =>
    rw [hτ.grows.get? hafter]
    exact .same _
  | used before rest =>
    rw [hτ.grows.get? hafter]
    exact .used before rest

/-- A value looks the same in the store in which it is. -/
theorem looksSame_self (h : ∀ k, σ.Leads Cell.shown v k → k < σ.size) : σ.LooksSame σ v := by
  refine ⟨rfl, fun k hk => ?_⟩
  have hc : σ.get? k = some (σ.cells.get ⟨k, h k hk⟩) := List.getElem?_eq_getElem (h k hk)
  rw [hc]
  exact ⟨_, rfl, .same _⟩

/-! ## What shows outside -/

/-- Whether all objects that show with a value are there, and none of them is in some places. -/
def ShowsClear (σ : Store) (T : Loc → Prop) (v : Value) : Prop :=
  ∀ k, σ.Leads Cell.shown v k → k < σ.size ∧ ¬ T k

/-- What is no object is clear of anything. -/
theorem showsClear_of_ne_object (h : ∀ l, v ≠ .object l) : σ.ShowsClear T v := by
  intro k hk
  obtain ⟨l, rfl⟩ := hk.exists_object
  exact absurd rfl (h l)

/-- What shows clear is there. -/
theorem ShowsClear.exists_cell (h : σ.ShowsClear T (.object l)) : ∃ c, σ.get? l = some c :=
  ⟨_, List.getElem?_eq_getElem (h l (.here l)).1⟩

/-- What shows with a cell shows clear where the cell does. -/
theorem ShowsClear.of_mem (h : σ.ShowsClear T (.object l)) (hl : σ.get? l = some c)
    (hv : v ∈ c.shown) : σ.ShowsClear T v :=
  fun k hk => h k (.through hl hv hk)

/-- What shows clear does so when objects are made. -/
theorem ShowsClear.grows (h : σ.ShowsClear T v) (hτ : σ.Grows τ) : τ.ShowsClear T v := by
  intro k hk
  have hold := hk.of_grows hτ fun k hk => (h k hk).1
  exact ⟨Nat.lt_of_lt_of_le (h k hold).1 hτ.size_le, (h k hold).2⟩

/-- Objects that show outside of some places look the same when nothing changes outside. -/
theorem ShowsClear.looksSame (h : σ.ShowsClear T v) (hτ : σ.CalmBut T source τ) :
    σ.LooksSame τ v := by
  refine ⟨hτ.stack_eq, fun l hl => ?_⟩
  obtain ⟨hlt, hT⟩ := h l hl
  have hc : σ.get? l = some σ.cells[l] := List.getElem?_eq_getElem hlt
  refine ⟨_, hc, ?_⟩
  rw [← hc]
  exact hτ.calm l hT

/-- A value that shows clear of what is changed shows the same afterwards. -/
theorem ShowsClear.view_eq (h : σ.ShowsClear T v) (hτ : σ.CalmBut T source τ) :
    τ.view v = σ.view v :=
  (h.looksSame hτ).view_eq

/-- A value that shows clear of what is changed does so afterwards. -/
theorem ShowsClear.after (h : σ.ShowsClear T v) (hτ : σ.CalmBut T source τ) :
    τ.ShowsClear T v := by
  intro k hk
  have hold := hk.of_shown (h.looksSame hτ).cells
  exact ⟨((h.looksSame hτ).lt_size hold).2, (h k hold).2⟩

/-- An object that has not been used up is what it was when nothing changes outside. -/
theorem ShowsClear.get?_eq (h : σ.ShowsClear T (.object l)) (hτ : σ.CalmBut T source τ)
    (hsource : source = .object l → ∀ rest, σ.get? l ≠ some (.iterator rest))
    (hl : σ.get? l = some c) : τ.get? l = some c := by
  have hT := (h l (.here l)).2
  by_cases hne : source = .object l
  · exact hτ.get?_eq hT hl fun vs hvs => hsource hne vs (hvs ▸ hl)
  · exact hτ.kept l c hT hne hl

/-- What is a one-shot sequence now was one before. -/
theorem ShowsClear.exists_iterator (h : σ.ShowsClear T v) (hτ : σ.CalmBut T source τ)
    {rest : List Value} (hv : τ.cell? v = some (.iterator rest)) :
    ∃ before, σ.cell? v = some (.iterator before) := by
  obtain ⟨l, rfl, hl⟩ := exists_of_cell? hv
  obtain ⟨c, hc, hcalm⟩ := (h.looksSame hτ).cells l (.here l)
  rw [hl] at hcalm
  cases hcalm with
  | same => exact ⟨rest, hc⟩
  | used before => exact ⟨before, hc⟩

/-! ## What is given -/

/-- Whether a value shows clear of some places, and what it gives one by one does so too. -/
def OffersClear (σ : Store) (T : Loc → Prop) (v : Value) : Prop :=
  σ.ShowsClear T v ∧ ∀ rest, σ.cell? v = some (.iterator rest) → ∀ w ∈ rest, σ.ShowsClear T w

/-- The fields of a record show with it. -/
theorem mem_shown_of_fields? {fields : List (String × Value)} (h : c.fields? = some fields)
    {e : String × Value} (he : e ∈ fields) : e.2 ∈ c.shown := by
  cases c with
  | byteRange | label | diagnostic =>
    obtain rfl := Option.some.inj h
    simp only [List.mem_cons, List.not_mem_nil, or_false] at he
    rcases he with rfl | rfl | rfl | rfl | rfl <;> simp [Cell.shown, Cell.held]
  | _ => cases h

/-- The items of an object that offers what is clear are clear. -/
theorem OffersClear.items (hv : σ.OffersClear T (.object l)) (hl : σ.get? l = some c)
    {items : List Value} (hitems : c.items? = some items) : ∀ w ∈ items, σ.ShowsClear T w := by
  have plain : ∀ {α} {f : α → Value} {xs : List α}, (∀ x k, f x ≠ .object k) →
      ∀ w ∈ xs.map f, σ.ShowsClear T w := by
    intro α f xs hf w hw
    obtain ⟨x, -, rfl⟩ := List.mem_map.1 hw
    exact showsClear_of_ne_object (hf x)
  cases c with
  | list | tuple | set =>
    obtain rfl := Option.some.inj hitems
    exact fun w hw => hv.1.of_mem hl hw
  | iterator rest =>
    obtain rfl := Option.some.inj hitems
    exact hv.2 rest hl
  | range | table | buffer =>
    obtain rfl := Option.some.inj hitems
    exact plain (by simp)
  | _ => cases hitems

/-- The elements that a value offers are clear in the store in which they are given. -/
theorem OffersClear.elements? (hv : σ.OffersClear T v) (hT : ∀ k, T k → k < σ.size)
    (h : σ.elements? v = some (vs, τ)) : ∀ w ∈ vs, τ.ShowsClear T w := by
  intro w hw
  rcases mem_of_elements? h hw with hplain | ⟨l, c, rfl, hl, hc, hmem, rfl⟩ |
    ⟨l, c, fields, rfl, hl, hfields, hpairs⟩
  · exact showsClear_of_ne_object hplain
  · cases c with
    | iterator rest => exact hv.2 rest hl w hmem
    | _ => exact hv.1.of_mem hl hmem
  · have hmem : w ∈ (σ.pairs fields).1 := by rwa [hpairs]
    obtain ⟨k, name, u, rfl, hle, hu, hk⟩ := exists_of_mem_pairs hmem
    rw [hpairs] at hk
    have hclear : σ.ShowsClear T u := hv.1.of_mem hl (mem_shown_of_fields? hfields hu)
    -- a pair is new, and shows what its field shows
    rintro m (_ | ⟨cell, mem, rest⟩)
    · exact ⟨lt_size_of_get? hk, fun hTk => Nat.not_lt.2 hle (hT _ hTk)⟩
    · rw [hk] at cell
      cases cell
      simp only [Cell.shown, Cell.held, List.mem_cons, List.not_mem_nil, or_false] at mem
      rcases mem with rfl | rfl
      · exact showsClear_of_ne_object (by simp) m rest
      · exact hclear.grows (Extends.of_elements? h).grows m rest

/-- What offers clear elements does so after a change, unless it has been used up. -/
theorem OffersClear.after (hv : σ.OffersClear T v) (hτ : σ.CalmBut T source τ)
    (hsource : source = v → ∀ rest, σ.cell? v ≠ some (.iterator rest)) : τ.OffersClear T v := by
  refine ⟨hv.1.after hτ, fun rest hrest w hw => ?_⟩
  obtain ⟨l, rfl, hl⟩ := exists_of_cell? hrest
  obtain ⟨c, hc⟩ := hv.1.exists_cell
  obtain rfl := Option.some.inj ((hv.1.get?_eq hτ hsource hc).symm.trans hl)
  exact (hv.2 rest hc w hw).after hτ

/-- What shows with a pair is the pair or shows with its second part. -/
theorem shown_of_pair {name : String} {k : Loc} (hl : σ.get? l = some (.tuple [.text name, v]))
    (hk : σ.Leads Cell.shown (.object l) k) : k = l ∨ σ.Leads Cell.shown v k := by
  cases hk with
  | here => exact .inl rfl
  | through cell mem rest =>
    obtain rfl := Option.some.inj (hl.symm.trans cell)
    simp only [Cell.shown, Cell.held, List.mem_cons, List.not_mem_nil, or_false] at mem
    rcases mem with rfl | rfl
    · obtain ⟨m, hm⟩ := rest.exists_object
      cases hm
    · exact .inr rest

/-- A pair of a name and a value shows both. -/
theorem view_pair {name : String} (hl : σ.get? l = some (.tuple [.text name, v])) :
    σ.view (.object l) = (σ.view v).map fun d => .tuple [.text name, d] := by
  rw [view_tuple hl, List.mapM_cons, List.mapM_cons, view_text]
  rcases σ.view v <;> rfl

section Seen

variable {α : Type} {f : Store → Value → α}

/-- Whether what is seen of a value depends on the objects that show with it, and what is seen of a
new pair on those that show with its second part. -/
structure Sees (f : Store → Value → α) : Prop where
  same : ∀ {σ τ : Store} {v}, σ.LooksSame τ v → f τ v = f σ v
  pair : ∀ {σ τ : Store} {v} (name : String), σ.LooksSame τ v →
    f (τ.alloc (.tuple [.text name, v])).2 (.object τ.size) =
      f (σ.alloc (.tuple [.text name, v])).2 (.object σ.size)

/-- The data of a value is what is seen of it. -/
theorem sees_view : Sees view where
  same h := h.view_eq
  pair name h := by
    rw [view_pair (get?_alloc_self _ _), view_pair (get?_alloc_self _ _),
      (h.extends (.alloc _ _) (.alloc _ _)).view_eq]

/-- The plain form of a value is what is seen of it. -/
theorem sees_plain : Sees plain where
  same h := h.plain_eq
  pair {σ τ v} name h := by
    have hafter := h.extends (.alloc σ (.tuple [.text name, v])) (.alloc τ (.tuple [.text name, v]))
    refine plain_moved hafter.stack_eq (get?_alloc_self _ _) (get?_alloc_self _ _) rfl ?_
    intro w hw m hm
    have hv : (σ.alloc (.tuple [.text name, v])).2.Leads Cell.shown v m := by
      simp only [Cell.shown, Cell.held, List.mem_cons, List.not_mem_nil, or_false] at hw
      rcases hw with rfl | rfl
      · obtain ⟨l, hl⟩ := hm.exists_object
        cases hl
      · exact hm
    obtain ⟨hσ, hτ⟩ := h.lt_size (hv.of_grows (.alloc σ _) fun k hk => (h.lt_size hk).1)
    exact ⟨hafter.cells m hv, Nat.ne_of_lt hσ, Nat.ne_of_lt hτ⟩

/-- Pairs are seen as if each of them were the only one. -/
theorem Sees.map_pairs (hf : Sees f) {fields : List (String × Value)}
    (h : ∀ e ∈ fields, σ.LooksSame σ e.2) :
    (σ.pairs fields).1.map (f (σ.pairs fields).2) =
      fields.map fun e => f (σ.alloc (.tuple [.text e.1, e.2])).2 (.object σ.size) := by
  induction fields generalizing σ with
  | nil => rfl
  | cons e fields ih =>
    obtain ⟨he, hfields⟩ := List.forall_mem_cons.1 h
    obtain ⟨name, u⟩ := e
    let σ₁ := (σ.alloc (.tuple [.text name, u])).2
    have hσ₁ : σ.Extends σ₁ := .alloc σ _
    have hpair : σ₁.LooksSame σ₁ (.object σ.size) := by
      refine looksSame_self fun k hk => ?_
      rcases shown_of_pair (get?_alloc_self σ _) hk with rfl | hk
      · exact lt_size_of_get? (get?_alloc_self σ _)
      · exact ((he.extends hσ₁ hσ₁).lt_size hk).1
    have hfirst := hf.same (hpair.extends (.refl σ₁) (.pairs σ₁ fields))
    have hrest := ih (σ := σ₁) fun e he => (hfields e he).extends hσ₁ hσ₁
    refine congrArg₂ List.cons hfirst (hrest.trans (List.map_congr_left fun e he => ?_))
    exact hf.pair e.1 ((hfields e he).extends (.refl σ) hσ₁)

/-- What a value gives one by one, as it is seen. -/
def offered (f : Store → Value → α) (σ : Store) (v : Value) : Option (List α) :=
  (σ.elements? v).map fun given => given.1.map (f given.2)

end Seen

/-- The elements of an object are its items, or the fields of a record as pairs. -/
theorem elements?_of_object (hl : σ.get? l = some c) : σ.elements? (.object l) =
    match c.items?, c.fields? with
    | some items, _ => some (items, σ)
    | none, some fields => some (σ.pairs fields)
    | none, none => none := by
  rw [elements?.eq_def]
  dsimp only [Value.asText?]
  generalize σ.get? l = c? at hl ⊢
  subst hl
  rfl

/-- What is no object gives what is no object, whatever there is. -/
theorem elements?_of_ne_object (h : ∀ l, v ≠ .object l) : ∃ vs? : Option (List Value),
    (∀ σ : Store, σ.elements? v = vs?.map fun vs => (vs, σ)) ∧
      ∀ vs ∈ vs?, ∀ w ∈ vs, ∀ l, w ≠ .object l := by
  have texts : ∀ s, ∀ w ∈ textElements s, ∀ l, w ≠ .object l := by
    intro s w hw l
    obtain ⟨x, -, rfl⟩ := List.mem_map.1 hw
    simp
  cases v with
  | object l => exact absurd rfl (h l)
  | text s => exact ⟨some (textElements s), fun _ => rfl, by simpa using texts s⟩
  | severity s => exact ⟨some (textElements s.word), fun _ => rfl, by simpa using texts s.word⟩
  | style s => exact ⟨some (textElements s.word), fun _ => rfl, by simpa using texts s.word⟩
  | bytes bs => exact ⟨some (byteElements bs), fun _ => rfl, by simp [byteElements]⟩
  | _ => exact ⟨none, fun _ => rfl, nofun⟩

/-- **Offers.** What a value gives is seen as before when nothing changes outside, if the value has
not been used up itself. -/
theorem OffersClear.offered_eq {α : Type} {f : Store → Value → α} (hf : Sees f)
    (hv : σ.OffersClear T v) (hτ : σ.CalmBut T source τ)
    (hsource : source = v → ∀ rest, σ.cell? v ≠ some (.iterator rest)) :
    τ.offered f v = σ.offered f v := by
  have same : ∀ vs : List Value, (∀ w ∈ vs, σ.ShowsClear T w) → vs.map (f τ) = vs.map (f σ) :=
    fun vs hvs => List.map_congr_left fun w hw => hf.same ((hvs w hw).looksSame hτ)
  by_cases hobject : ∃ l, v = .object l
  · obtain ⟨l, rfl⟩ := hobject
    obtain ⟨c, hl⟩ := hv.1.exists_cell
    have hl' := hv.1.get?_eq hτ hsource hl
    rw [offered, offered, elements?_of_object hl, elements?_of_object hl']
    rcases hitems : c.items? with _ | items
    · rcases hfields : c.fields? with _ | fields
      · rfl
      · have hshown : ∀ e ∈ fields, σ.ShowsClear T e.2 :=
          fun e he => hv.1.of_mem hl (mem_shown_of_fields? hfields he)
        have hbefore := hf.map_pairs fun e he => (hshown e he).looksSame (.refl T source σ)
        have hafter := hf.map_pairs fun e he => ((hshown e he).after hτ).looksSame (.refl T source τ)
        refine congrArg some (hafter.trans (Eq.trans ?_ hbefore.symm))
        exact List.map_congr_left fun e he => hf.pair e.1 ((hshown e he).looksSame hτ)
    · exact congrArg some (same items (hv.items hl hitems))
  · obtain ⟨vs?, hvs, hplain⟩ := elements?_of_ne_object (v := v) fun l hl => hobject ⟨l, hl⟩
    rw [offered, offered, hvs σ, hvs τ]
    rcases vs? with _ | vs
    · rfl
    · exact congrArg some (same vs fun w hw => showsClear_of_ne_object (hplain vs rfl w hw))

end Store

end Diagnostics
