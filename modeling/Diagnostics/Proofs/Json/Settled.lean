import Diagnostics.Proofs.Json.Steps

/-!
# Texts whose reading is settled

What the reader makes of a text that spells a value is settled by the text, whatever follows it
(`Spells.settled`): it finds the value, or a fault that is always the same. A text that is JSON
under some limits can still be too deep, or hold a number that is too long, under others.

`Matched` compares two readings, which may stop at different places but not for different reasons.
-/

namespace Diagnostics.Json

variable {α β γ δ : Type} {e : Encoding} {limits limits' : Limits} {cs r rest : List Char}

/-- Two readings that both find something, and what they find is related, or that stop for the same
reason. -/
inductive Matched (R : α → β → Prop) : Except Stop α → Except Stop β → Prop
  | ok {a : α} {b : β} (related : R a b) : Matched R (.ok a) (.ok b)
  | error (fault : Fault) (left right : List Char) :
    Matched R (.error ⟨fault, left⟩) (.error ⟨fault, right⟩)

namespace Matched

theorem imp {R S : α → β → Prop} {x : Except Stop α} {y : Except Stop β} (h : Matched R x y)
    (hRS : ∀ a b, R a b → S a b) : Matched S x y := by
  cases h with
  | ok related => exact .ok (hRS _ _ related)
  | error fault left right => exact .error fault left right

theorem bind {R : α → β → Prop} {S : γ → δ → Prop} {x : Except Stop α} {y : Except Stop β}
    {f : α → Except Stop γ} {g : β → Except Stop δ} (h : Matched R x y)
    (hfg : ∀ a b, R a b → Matched S (f a) (g b)) : Matched S (x >>= f) (y >>= g) := by
  cases h with
  | ok related => exact hfg _ _ related
  | error fault left right => exact .error fault left right

/-- To go on in two ways after one reading. -/
theorem bind_same {S : γ → δ → Prop} (x : Except Stop α) {f : α → Except Stop γ}
    {g : α → Except Stop δ} (hfg : ∀ a, Matched S (f a) (g a)) :
    Matched S (x >>= f) (x >>= g) := by
  cases x with
  | ok a => exact hfg a
  | error stop => exact .error stop.fault stop.rest stop.rest

/-- To make something of what one reading finds. -/
theorem bind_left {R : α → β → Prop} {S : γ → β → Prop} {x : Except Stop α} {y : Except Stop β}
    {f : α → Except Stop γ} (h : Matched R x y)
    (hf : ∀ a b, R a b → ∃ c, f a = .ok c ∧ S c b) : Matched S (x >>= f) y := by
  cases h with
  | ok related =>
    obtain ⟨c, hc, hS⟩ := hf _ _ related
    rw [ok_bind, hc]
    exact .ok hS
  | error fault left right => exact .error fault left right

/-- Readings that are matched with the same third one are matched. -/
theorem join {R : α → γ → Prop} {S : β → γ → Prop} {x : Except Stop α} {y : Except Stop β}
    {z : Except Stop γ} (h : Matched R x z) (h' : Matched S y z) :
    Matched (fun a b => ∃ c, R a c ∧ S b c) x y := by
  cases h with
  | ok related =>
    cases h' with
    | ok related' => exact .ok ⟨_, related, related'⟩
  | error fault left right =>
    cases h' with
    | error fault left' right' => exact .error fault left left'

end Matched

/-- Whether a reader makes the same of a text, whatever follows the text: it finds `a` and leaves
`r` of it, or stops for the same reason. -/
def Settled (f : List Char → Except Stop (α × List Char)) (cs : List Char) (a : α) (r : List Char) :
    Prop :=
  ∀ rest rest', Ends rest → Ends rest' →
    Matched (fun p q => p = (a, r ++ rest) ∧ q = (a, r ++ rest')) (f (cs ++ rest)) (f (cs ++ rest'))

/-- Whether it is settled what the second reader makes of a text in which the first finds
something. -/
def Settles (g f : List Char → Except Stop (α × List Char)) : Prop :=
  ∀ ⦃cs r : List Char⦄ ⦃a : α⦄, g cs = .ok (a, r) → Settled f cs a r

/-! ## Numbers -/

/-- A number that some limits keep is the same under others, or too long for them. -/
theorem magnitude_narrow {negative : Bool} {j : Json} (h : magnitude limits' negative cs = .ok (j, r))
    (limits : Limits) : magnitude limits negative cs = .ok (j, r) ∨
      ∀ rest, Ends rest → ∃ left,
        magnitude limits negative (cs ++ rest) = .error ⟨.numberTooLong, left⟩ := by
  rcases hds : someDigits cs with _ | ⟨ds, r₁⟩
  · simp only [magnitude, hds, bind, Except.bind] at h
    cases h
  by_cases hzero : 1 < ds.length ∧ ds.head? = some '0'
  · simp only [magnitude, hds, bind, Except.bind, if_pos hzero] at h
    cases h
  by_cases hlong : limits.characters < ds.length + negative.toNat
  · refine .inr fun rest hrest => ⟨(cs ++ rest).drop (limits.characters + 1 - negative.toNat), ?_⟩
    simp only [magnitude, someDigits_continued hrest hds, bind, Except.bind, if_neg hzero,
      if_pos hlong]
    rfl
  · refine .inl (h ▸ ?_)
    have hlong' : ¬ limits'.characters < ds.length + negative.toNat := by
      intro hlong'
      simp only [magnitude, hds, bind, Except.bind, if_neg hzero, if_pos hlong'] at h
      cases h
    simp only [magnitude, hds, bind, Except.bind, if_neg hzero, if_neg hlong, if_neg hlong']

theorem scalar_narrow {j : Json} (h : scalar e limits' cs = .ok (j, r)) (limits : Limits) :
    scalar e limits cs = .ok (j, r) ∨
      ∀ rest, Ends rest → ∃ left, scalar e limits (cs ++ rest) = .error ⟨.numberTooLong, left⟩ := by
  rcases cs with _ | ⟨c, cs⟩
  · cases h
  by_cases hminus : c = '-'
  · subst hminus
    rcases cs with _ | ⟨d, cs⟩
    · cases h
    have hscalar (limits : Limits) (ds : List Char) :
        scalar e limits ('-' :: ds) = afterMinus limits ds := rfl
    rw [hscalar, afterMinus] at h
    simp only [List.cons_append, hscalar, afterMinus]
    split at h
    · next hinf => exact .inl (by rw [if_pos hinf, h])
    · next hinf =>
      simp only [if_neg hinf]
      exact magnitude_narrow h limits
  by_cases hdigit : c.isDigit = true
  · have hne (d : Char) (hd : d.isDigit = false) : c ≠ d := by
      rintro rfl
      rw [hdigit] at hd
      cases hd
    have hscalar (limits : Limits) (ds : List Char) :
        scalar e limits (c :: ds) = magnitude limits false (c :: ds) := by
      rw [scalar, if_neg (hne '"' rfl), if_neg (hne 't' rfl), if_neg (hne 'f' rfl),
        if_neg (hne 'n' rfl), if_neg (hne 'N' rfl), if_neg (hne 'I' rfl), if_neg hminus,
        if_pos hdigit]
    rw [hscalar] at h
    simp only [List.cons_append, hscalar]
    exact magnitude_narrow h limits
  · -- only numbers have limits here
    have hscalar : scalar e limits (c :: cs) = scalar e limits' (c :: cs) := by
      simp only [scalar, if_neg hminus, if_neg hdigit]
    exact .inl (hscalar.trans h)

theorem scalar_settles (e : Encoding) (limits' limits : Limits) :
    Settles (scalar e limits') (scalar e limits) := by
  intro cs r j h rest rest' hrest hrest'
  rcases scalar_narrow h limits with hj | hlong
  · rw [scalar_continued hrest (Nat.le_refl _) hj, scalar_continued hrest' (Nat.le_refl _) hj]
    exact .ok ⟨rfl, rfl⟩
  · obtain ⟨left, hleft⟩ := hlong rest hrest
    obtain ⟨right, hright⟩ := hlong rest' hrest'
    rw [hleft, hright]
    exact .error _ _ _

/-! ## Keys -/

/-- Space in front of space does not count. -/
theorem skip_skip_append (cs rest : List Char) : skip (skip cs ++ rest) = skip (cs ++ rest) := by
  induction cs with
  | nil => rfl
  | cons c cs ih =>
    by_cases hc : isSpace c = true
    · have hskip (ds : List Char) : skip (c :: ds) = skip ds := List.dropWhile_cons_of_pos hc
      rw [List.cons_append, hskip, hskip, ih]
    · have hskip (ds : List Char) : skip (c :: ds) = c :: ds := List.dropWhile_cons_of_neg hc
      rw [hskip]

theorem colon_append (h : colon cs = .ok r) (rest : List Char) :
    colon (cs ++ rest) = .ok (skip (r ++ rest)) := by
  rcases hskip : skip cs with _ | ⟨c, ds⟩
  · rw [colon, hskip] at h
    cases h
  rw [colon, hskip] at h
  rw [colon, skip_append hskip]
  dsimp only at h ⊢
  split at h
  · next hc =>
    cases h
    rw [if_pos hc, skip_skip_append]
  · cases h

/-- A key ends, with the colon and the space after it, where something else begins. -/
theorem key_append {k : String} (h : key e cs = .ok (k, r)) (rest : List Char) :
    key e (cs ++ rest) = .ok (k, skip (r ++ rest)) := by
  rcases cs with _ | ⟨c, cs⟩
  · cases h
  rw [key] at h
  rw [List.cons_append, key]
  split at h
  · next hc =>
    obtain ⟨⟨k', r₁⟩, hk, h⟩ := bind_eq_ok.1 h
    obtain ⟨r₂, hr, h⟩ := bind_eq_ok.1 h
    cases h
    rw [if_pos hc]
    exact bind_eq_ok.2 ⟨_, quoted_append hk, bind_eq_ok.2 ⟨_, colon_append hr rest, rfl⟩⟩
  · cases h

/-- What is left behind a key begins without space. -/
theorem skip_of_key {k : String} (h : key e cs = .ok (k, r)) : skip r = r := by
  have happend := key_append h []
  rw [List.append_nil, List.append_nil, h] at happend
  exact (Prod.mk.inj (Except.ok.inj happend)).2.symm

/-! ## Values -/

section Values

variable {fuel depth depth' : Nat}

theorem list_settles_of {r : List Char} {j : Json}
    (hitems : Settles (items e limits' fuel (depth' - 1)) (itemsIn e limits (depth - 1)))
    (h : value e limits' (fuel + 1) depth' ('[' :: cs) = .ok (j, r)) :
    Settled (valueIn e limits depth) ('[' :: cs) j r := by
  intro rest rest' hrest hrest'
  rw [value, if_pos rfl] at h
  rw [List.cons_append, List.cons_append, valueIn_list, valueIn_list]
  rcases hskip : skip cs with _ | ⟨d, ds⟩
  · rw [hskip] at h
    cases h
  rw [hskip] at h
  rw [skip_append hskip, skip_append hskip]
  dsimp only at h ⊢
  split at h
  · next hclose =>
    cases h
    rw [if_pos hclose, if_pos hclose]
    exact .ok ⟨rfl, rfl⟩
  next hclose =>
  rw [if_neg hclose, if_neg hclose]
  split at h
  · cases h
  obtain ⟨⟨js, r'⟩, hjs, h⟩ := bind_eq_ok.1 h
  cases h
  split
  · exact .error _ _ _
  · refine (hitems hjs rest rest' hrest hrest').bind ?_
    rintro _ _ ⟨rfl, rfl⟩
    exact .ok ⟨rfl, rfl⟩

theorem table_settles_of {r : List Char} {j : Json}
    (hentries : Settles (entries e limits' fuel depth') (entriesIn e limits depth))
    (h : value e limits' (fuel + 1) depth' ('\x7b' :: cs) = .ok (j, r)) :
    Settled (valueIn e limits depth) ('\x7b' :: cs) j r := by
  intro rest rest' hrest hrest'
  rw [value, if_neg (by decide), if_pos rfl] at h
  rw [List.cons_append, List.cons_append, valueIn_table, valueIn_table]
  rcases hskip : skip cs with _ | ⟨d, ds⟩
  · rw [hskip] at h
    cases h
  rw [hskip] at h
  rw [skip_append hskip, skip_append hskip]
  dsimp only at h ⊢
  split at h
  · next hclose =>
    cases h
    rw [if_pos hclose, if_pos hclose]
    exact .ok ⟨rfl, rfl⟩
  · next hclose =>
    obtain ⟨⟨es, r'⟩, hes, h⟩ := bind_eq_ok.1 h
    cases h
    rw [if_neg hclose, if_neg hclose]
    refine (hentries hes rest rest' hrest hrest').bind ?_
    rintro _ _ ⟨rfl, rfl⟩
    exact .ok ⟨rfl, rfl⟩

theorem value_settles_of
    (hitems : Settles (items e limits' fuel (depth' - 1)) (itemsIn e limits (depth - 1)))
    (hentries : Settles (entries e limits' fuel depth') (entriesIn e limits depth)) :
    Settles (value e limits' (fuel + 1) depth') (valueIn e limits depth) := by
  intro cs r j h
  rcases cs with _ | ⟨c, cs⟩
  · cases h
  by_cases hlist : c = '['
  · exact hlist ▸ list_settles_of hitems (hlist ▸ h)
  by_cases htable : c = '\x7b'
  · exact htable ▸ table_settles_of hentries (htable ▸ h)
  · rw [value, if_neg hlist, if_neg htable] at h
    intro rest rest' hrest hrest'
    rw [List.cons_append, List.cons_append, valueIn_scalar hlist htable,
      valueIn_scalar hlist htable]
    exact scalar_settles e limits' limits h rest rest' hrest hrest'

theorem items_settles_of (hvalue : Settles (value e limits' fuel depth') (valueIn e limits depth))
    (hitems : Settles (items e limits' fuel depth') (itemsIn e limits depth)) :
    Settles (items e limits' (fuel + 1) depth') (itemsIn e limits depth) := by
  intro cs r js h rest rest' hrest hrest'
  rw [items] at h
  obtain ⟨⟨j, r₁⟩, hj, h⟩ := bind_eq_ok.1 h
  obtain ⟨⟨more, r₂⟩, hmore, h⟩ := bind_eq_ok.1 h
  rw [itemsIn_eq, itemsIn_eq]
  refine (hvalue hj rest rest' hrest hrest').bind ?_
  rintro _ _ ⟨rfl, rfl⟩
  dsimp only at h hmore ⊢
  rw [nextItem_append hmore, nextItem_append hmore]
  cases more with
  | false =>
    cases h
    exact .ok ⟨rfl, rfl⟩
  | true =>
    obtain ⟨⟨js', r₃⟩, hjs, h⟩ := bind_eq_ok.1 h
    cases h
    refine (hitems hjs rest rest' hrest hrest').bind ?_
    rintro _ _ ⟨rfl, rfl⟩
    exact .ok ⟨rfl, rfl⟩

theorem entries_settles_of
    (hvalue : Settles (value e limits' fuel (depth' - 1)) (valueIn e limits (depth - 1)))
    (hentries : Settles (entries e limits' fuel depth') (entriesIn e limits depth)) :
    Settles (entries e limits' (fuel + 1) depth') (entriesIn e limits depth) := by
  intro cs r es h rest rest' hrest hrest'
  rw [entries] at h
  obtain ⟨⟨k, r₁⟩, hk, h⟩ := bind_eq_ok.1 h
  dsimp only at h
  split at h
  · cases h
  obtain ⟨⟨j, r₂⟩, hj, h⟩ := bind_eq_ok.1 h
  obtain ⟨⟨more, r₃⟩, hmore, h⟩ := bind_eq_ok.1 h
  obtain ⟨c, ds, rfl, -⟩ := exists_cons_of_value hj
  have hkey (rest : List Char) : key e (cs ++ rest) = .ok (k, c :: ds ++ rest) := by
    rw [key_append hk, skip_append (skip_of_key hk), List.cons_append]
  rw [entriesIn_eq, entriesIn_eq, hkey, hkey]
  by_cases hzero : depth = 0
  · subst hzero
    exact .error _ _ _
  simp only [ok_bind, hzero, false_and, if_false]
  refine (hvalue hj rest rest' hrest hrest').bind ?_
  rintro _ _ ⟨rfl, rfl⟩
  dsimp only at h hmore ⊢
  rw [nextEntry_append hmore, nextEntry_append hmore]
  cases more with
  | false =>
    cases h
    exact .ok ⟨rfl, rfl⟩
  | true =>
    obtain ⟨⟨es', r₄⟩, hes, h⟩ := bind_eq_ok.1 h
    cases h
    refine (hentries hes rest rest' hrest hrest').bind ?_
    rintro _ _ ⟨rfl, rfl⟩
    exact .ok ⟨rfl, rfl⟩

/-- The readers that call each other, by induction on the steps that the first of them may take. -/
theorem all_settle (e : Encoding) (limits' limits : Limits) (fuel depth' depth : Nat) :
    Settles (value e limits' fuel depth') (valueIn e limits depth) ∧
      Settles (items e limits' fuel depth') (itemsIn e limits depth) ∧
      Settles (entries e limits' fuel depth') (entriesIn e limits depth) := by
  induction fuel generalizing depth' depth with
  | zero =>
    refine ⟨?_, ?_, ?_⟩
    · intro cs r a h
      cases h
    · intro cs r a h
      cases h
    · intro cs r a h
      cases h
  | succ fuel ih =>
    obtain ⟨hvalue, hitems, hentries⟩ := ih depth' depth
    obtain ⟨hvalue', hitems', -⟩ := ih (depth' - 1) (depth - 1)
    exact ⟨value_settles_of hitems' hentries, items_settles_of hvalue hitems,
      entries_settles_of hvalue' hentries⟩

/-- Whether a text spells a value, under some limits. -/
def Spells (e : Encoding) (text : List Char) (j : Json) : Prop :=
  ∃ limits, document e limits text = .ok j

/-- A text that is read under the limits for texts from outside spells a value. -/
theorem exists_spells {text : List Char} (h : (document e .standard text).isOk) :
    ∃ j, Spells e text j := by
  rcases hdocument : document e .standard text with stop | j
  · rw [hdocument] at h
    cases h
  · exact ⟨j, .standard, hdocument⟩

/-- **Documents.** What is made of a text that spells a value is settled, whatever follows it and
whatever the limits are. -/
theorem Spells.settled {text : List Char} {j : Json} (h : Spells e text j) :
    ∃ c ds r, skip text = c :: ds ∧ c ≠ ']' ∧ skip r = [] ∧
      ∀ limits depth, Settled (valueIn e limits depth) (c :: ds) j r := by
  obtain ⟨limits', hj⟩ := h
  obtain ⟨r, hvalue, hr⟩ := document_eq_ok.1 hj
  obtain ⟨c, ds, hskip, hc⟩ := exists_cons_of_value hvalue
  rw [hskip] at hvalue
  exact ⟨c, ds, r, hskip, hc, hr, fun limits depth =>
    (all_settle e limits' limits _ limits'.depth depth).1 hvalue⟩

end Values

end Diagnostics.Json
