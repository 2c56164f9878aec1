import Diagnostics.Proofs.Json.Continued

/-!
# Readers with steps enough

Readers only go forward: what they leave of a text is no longer than the text. So a reader that may
take twice as many steps as the text is long never runs out of them (`value_of_le`), and the readers
can be looked at without their steps: `valueIn`, `itemsIn` and `entriesIn` are given all steps that a
text can need, and call each other like the readers do.
-/

namespace Diagnostics.Json

variable {α β : Type} {e : Encoding} {limits : Limits} {cs r : List Char} {fuel depth : Nat}

/-- Whether a reader leaves nothing longer than the text. -/
def Forward (f : List Char → Except Stop (α × List Char)) : Prop :=
  ∀ ⦃cs r : List Char⦄ ⦃a : α⦄, f cs = .ok (a, r) → r.length ≤ cs.length

/-- Space is skipped forward. -/
theorem length_skip_le (cs : List Char) : (skip cs).length ≤ cs.length :=
  List.length_dropWhile_le ..

/-- What follows a word is shorter than the text by the word. -/
theorem word_forward {ws : List Char} (h : word ws cs = .ok r) : r.length ≤ cs.length := by
  induction ws generalizing cs with
  | nil => cases h; exact Nat.le_refl _
  | cons w ws ih =>
    rcases cs with _ | ⟨c, cs⟩
    · cases h
    · rw [word] at h
      split at h
      · exact Nat.le_succ_of_le (ih h)
      · cases h

/-! ## Numbers -/

/-- What follows digits is no longer than the text. -/
theorem someDigits_forward : Forward someDigits := by
  intro cs r ds h
  rcases cs with _ | ⟨c, cs⟩
  · cases h
  · rw [someDigits] at h
    split at h
    · cases h
      exact List.length_dropWhile_le ..
    · cases h

/-- What follows a fraction is no longer than the text. -/
theorem fraction_forward : Forward fraction := by
  intro cs r ds h
  rcases cs with _ | ⟨c, cs⟩
  · cases h
    exact Nat.le_refl _
  · rw [fraction] at h
    split at h
    · exact Nat.le_succ_of_le (someDigits_forward h)
    · cases h
      exact Nat.le_refl _

/-- What follows a sign is no longer than the text. -/
theorem splitSign_length (cs : List Char) : (Digits.splitSign cs).2.length ≤ cs.length := by
  rcases cs with _ | ⟨c, cs⟩
  · exact Nat.le_refl _
  · rw [Digits.splitSign]
    split
    · exact Nat.le_succ _
    · split
      · exact Nat.le_succ _
      · exact Nat.le_refl _

/-- What follows an exponent is no longer than the text. -/
theorem exponent?_forward : Forward exponent? := by
  intro cs r e? h
  rcases cs with _ | ⟨c, cs⟩
  · cases h
    exact Nat.le_refl _
  · rw [exponent?] at h
    split at h
    · obtain ⟨⟨ds, r'⟩, hds, h⟩ := bind_eq_ok.1 h
      cases h
      exact Nat.le_succ_of_le ((someDigits_forward hds).trans (splitSign_length cs))
    · cases h
      exact Nat.le_refl _

/-- What follows a number is no longer than the text. -/
theorem magnitude_forward (limits : Limits) (negative : Bool) :
    Forward (magnitude limits negative) := by
  intro cs r j h
  obtain ⟨⟨ds, r₁⟩, hds, h⟩ := bind_eq_ok.1 h
  have hwhole := someDigits_forward hds
  dsimp only at h
  split at h
  · cases h
  split at h
  · cases h
  obtain ⟨⟨decimals, r₂⟩, hdecimals, h⟩ := bind_eq_ok.1 h
  obtain ⟨⟨e?, r₃⟩, he, h⟩ := bind_eq_ok.1 h
  have hrest := (exponent?_forward he).trans (fraction_forward hdecimals)
  dsimp only at h
  split at h
  · cases h
    exact hrest.trans hwhole
  · cases h
    exact hrest.trans hwhole

/-- What follows a minus is read as a number or a word, and both go forward. -/
theorem afterMinus_forward (limits : Limits) : Forward (afterMinus limits) := by
  intro cs r j h
  rcases cs with _ | ⟨c, cs⟩
  · cases h
  · rw [afterMinus] at h
    split at h
    · obtain ⟨r', hr, h⟩ := bind_eq_ok.1 h
      cases h
      exact Nat.le_succ_of_le (word_forward hr)
    · exact magnitude_forward limits true h

/-! ## Texts -/

/-- Each hexadecimal digit goes one character forward. -/
theorem hexDigits_forward (count n : Nat) : Forward (hexDigits count n) := by
  intro cs r m h
  induction count generalizing n cs with
  | zero => cases h; exact Nat.le_refl _
  | succ count ih =>
    rcases cs with _ | ⟨c, cs⟩
    · cases h
    · rw [hexDigits] at h
      split at h
      · exact Nat.le_succ_of_le (ih _ h)
      · cases h

/-- A code goes forward by its digits. -/
theorem code_forward (e : Encoding) : Forward (code e) := by
  intro cs r n h
  rw [code] at h
  split at h
  · cases h
  · exact hexDigits_forward 4 0 h

/-- The second code of a pair goes forward if there is one. -/
theorem lowHalf_forward (e : Encoding) : Forward (lowHalf e) := by
  intro cs r n h
  rcases cs with _ | ⟨c, cs⟩
  · cases h
  rw [lowHalf] at h
  split at h
  · rcases cs with _ | ⟨d, cs⟩
    · cases h
    rw [escapedLow] at h
    split at h
    · obtain ⟨⟨low, r'⟩, hlow, h⟩ := bind_eq_ok.1 h
      dsimp only at h
      split at h
      · cases h
        exact Nat.le_succ_of_le (Nat.le_succ_of_le (code_forward e hlow))
      · cases h
    · cases h
  · cases h

/-- A coded character goes forward by one code or two. -/
theorem coded_forward (e : Encoding) : Forward (coded e) := by
  intro cs r d h
  obtain ⟨⟨n, r₁⟩, hn, h⟩ := bind_eq_ok.1 h
  have hfirst := code_forward e hn
  dsimp only at h
  split at h
  · cases h
  split at h
  · obtain ⟨⟨low, r₂⟩, hlow, h⟩ := bind_eq_ok.1 h
    obtain ⟨-, rfl⟩ := Prod.mk.inj (Except.ok.inj h)
    exact (lowHalf_forward e hlow).trans hfirst
  · obtain ⟨-, rfl⟩ := Prod.mk.inj (Except.ok.inj h)
    exact hfirst

/-- An escape goes forward by a letter or by codes. -/
theorem escape_forward (e : Encoding) : Forward (escape e) := by
  intro cs r d h
  rcases cs with _ | ⟨c, cs⟩
  · cases h
  rw [escape] at h
  split at h
  · exact Nat.le_succ_of_le (coded_forward e h)
  · split at h
    · cases h
      exact Nat.le_succ _
    · cases h

/-- A text goes forward unit by unit, by induction on the steps. -/
theorem textBody_forward (e : Encoding) (fuel : Nat) : Forward (textBody e fuel) := by
  intro cs r ds h
  induction fuel generalizing cs ds with
  | zero => cases h
  | succ fuel ih =>
    rcases cs with _ | ⟨c, cs⟩
    · cases h
    rw [textBody] at h
    split at h
    · cases h
      exact Nat.le_succ _
    split at h
    · obtain ⟨⟨d, r₁⟩, hd, h⟩ := bind_eq_ok.1 h
      obtain ⟨⟨ds', r₂⟩, hds, h⟩ := bind_eq_ok.1 h
      cases h
      exact Nat.le_succ_of_le ((ih hds).trans (escape_forward e hd))
    split at h
    · cases h
    · obtain ⟨⟨ds', r₁⟩, hds, h⟩ := bind_eq_ok.1 h
      cases h
      exact Nat.le_succ_of_le (ih hds)

/-- What follows a text is no longer than it was with the text. -/
theorem quoted_forward (e : Encoding) : Forward (quoted e) := by
  intro cs r s h
  obtain ⟨⟨ds, r'⟩, hds, h⟩ := bind_eq_ok.1 h
  dsimp only at h
  split at h
  · cases h
    exact textBody_forward e _ hds
  · cases h

/-- What follows a colon is no longer than it was with the colon. -/
theorem colon_forward (h : colon cs = .ok r) : r.length ≤ cs.length := by
  have hskip := length_skip_le cs
  rw [colon] at h
  split at h
  · cases h
  · next c ds hds =>
    rw [hds] at hskip
    split at h
    · cases h
      exact (length_skip_le ds).trans (Nat.le_of_succ_le hskip)
    · cases h

/-- A key goes forward by a text and a colon. -/
theorem key_forward (e : Encoding) : Forward (key e) := by
  intro cs r k h
  rcases cs with _ | ⟨c, cs⟩
  · cases h
  rw [key] at h
  split at h
  · obtain ⟨⟨k', r₁⟩, hk, h⟩ := bind_eq_ok.1 h
    obtain ⟨r₂, hr, h⟩ := bind_eq_ok.1 h
    cases h
    exact Nat.le_succ_of_le ((colon_forward hr).trans (quoted_forward e hk))
  · cases h

/-! ## Values -/

/-- A value that holds no other goes forward whatever it is. -/
theorem scalar_forward (e : Encoding) (limits : Limits) : Forward (scalar e limits) := by
  intro cs r j h
  have words : ∀ (ws ds : List Char) (i : Json),
      (do return (i, ← word ws ds) : Except Stop (Json × List Char)) = .ok (j, r) →
        r.length ≤ ds.length + 1 := by
    intro ws ds i h
    obtain ⟨r', hr, h⟩ := bind_eq_ok.1 h
    cases h
    exact Nat.le_succ_of_le (word_forward hr)
  rcases cs with _ | ⟨c, cs⟩
  · cases h
  rw [scalar] at h
  split at h
  · obtain ⟨⟨s, r'⟩, hs, h⟩ := bind_eq_ok.1 h
    cases h
    exact Nat.le_succ_of_le (quoted_forward e hs)
  split at h
  · exact words _ _ _ h
  split at h
  · exact words _ _ _ h
  split at h
  · exact words _ _ _ h
  split at h
  · exact words _ _ _ h
  split at h
  · exact words _ _ _ h
  split at h
  · exact Nat.le_succ_of_le (afterMinus_forward limits h)
  split at h
  · exact magnitude_forward limits false h
  · cases h

/-- Before the next part there is at least a comma or a closing character. -/
theorem nextPart_forward {close : Char} {unclosed expected : Fault} {more : Bool}
    (h : nextPart close unclosed expected cs = .ok (more, r)) : r.length < cs.length := by
  have hskip := length_skip_le cs
  rw [nextPart] at h
  split at h
  · cases h
  next c ds hds =>
  rw [hds] at hskip
  split at h
  · cases h
    exact hskip
  split at h
  · have hmore := length_skip_le ds
    split at h
    · cases h
    next d ds' hds' =>
    rw [hds'] at hmore
    split at h
    · cases h
    · cases h
      exact Nat.lt_of_le_of_lt hmore hskip
  · cases h

/-- A value goes forward if its items and entries do. -/
theorem value_forward_of {fuel depth : Nat} (hitems : Forward (items e limits fuel (depth - 1)))
    (hentries : Forward (entries e limits fuel depth)) :
    Forward (value e limits (fuel + 1) depth) := by
  intro cs r j h
  rcases cs with _ | ⟨c, cs⟩
  · cases h
  have hskip := length_skip_le cs
  rw [value] at h
  split at h
  · split at h
    · cases h
    next d ds hds =>
    rw [hds] at hskip
    split at h
    · cases h
      exact Nat.le_succ_of_le (Nat.le_of_succ_le hskip)
    split at h
    · cases h
    · obtain ⟨⟨js, r'⟩, hjs, h⟩ := bind_eq_ok.1 h
      cases h
      exact Nat.le_succ_of_le ((hitems hjs).trans hskip)
  split at h
  · split at h
    · cases h
    next d ds hds =>
    rw [hds] at hskip
    split at h
    · cases h
      exact Nat.le_succ_of_le (Nat.le_of_succ_le hskip)
    · obtain ⟨⟨es, r'⟩, hes, h⟩ := bind_eq_ok.1 h
      cases h
      exact Nat.le_succ_of_le ((hentries hes).trans hskip)
  · exact scalar_forward e limits h

/-- Items go forward if the first of them and the others do. -/
theorem items_forward_of {fuel depth : Nat} (hvalue : Forward (value e limits fuel depth))
    (hitems : Forward (items e limits fuel depth)) :
    Forward (items e limits (fuel + 1) depth) := by
  intro cs r js h
  rw [items] at h
  obtain ⟨⟨j, r₁⟩, hj, h⟩ := bind_eq_ok.1 h
  obtain ⟨⟨more, r₂⟩, hmore, h⟩ := bind_eq_ok.1 h
  have hrest := (Nat.le_of_lt (nextPart_forward hmore)).trans (hvalue hj)
  cases more with
  | false =>
    cases h
    exact hrest
  | true =>
    obtain ⟨⟨js', r₃⟩, hjs, h⟩ := bind_eq_ok.1 h
    cases h
    exact (hitems hjs).trans hrest

/-- Entries go forward if the first value and the other entries do. -/
theorem entries_forward_of {fuel depth : Nat}
    (hvalue : Forward (value e limits fuel (depth - 1)))
    (hentries : Forward (entries e limits fuel depth)) :
    Forward (entries e limits (fuel + 1) depth) := by
  intro cs r es h
  rw [entries] at h
  obtain ⟨⟨k, r₁⟩, hk, h⟩ := bind_eq_ok.1 h
  dsimp only at h
  split at h
  · cases h
  obtain ⟨⟨j, r₂⟩, hj, h⟩ := bind_eq_ok.1 h
  obtain ⟨⟨more, r₃⟩, hmore, h⟩ := bind_eq_ok.1 h
  have hrest := (Nat.le_of_lt (nextPart_forward hmore)).trans ((hvalue hj).trans (key_forward e hk))
  cases more with
  | false =>
    cases h
    exact hrest
  | true =>
    obtain ⟨⟨es', r₄⟩, hes, h⟩ := bind_eq_ok.1 h
    cases h
    exact (hentries hes).trans hrest

/-- The readers that call each other, by induction on the steps that the first of them may take. -/
theorem all_forward (e : Encoding) (limits : Limits) (fuel depth : Nat) :
    Forward (value e limits fuel depth) ∧ Forward (items e limits fuel depth) ∧
      Forward (entries e limits fuel depth) := by
  induction fuel generalizing depth with
  | zero =>
    refine ⟨?_, ?_, ?_⟩
    · intro cs r a h
      cases h
    · intro cs r a h
      cases h
    · intro cs r a h
      cases h
  | succ fuel ih =>
    obtain ⟨hvalue, hitems, hentries⟩ := ih depth
    obtain ⟨hvalue', hitems', -⟩ := ih (depth - 1)
    exact ⟨value_forward_of hitems' hentries, items_forward_of hvalue hitems,
      entries_forward_of hvalue' hentries⟩

/-! ## Steps -/

theorem ok_bind (a : α) (f : α → Except Stop β) : (Except.ok a >>= f) = f a := rfl

/-- Readers that agree on what the first of them leaves make the same of it. -/
theorem bind_congr_ok {x : Except Stop (α × List Char)} {f g : α × List Char → Except Stop β}
    (h : ∀ a r, x = .ok (a, r) → f (a, r) = g (a, r)) : (x >>= f) = (x >>= g) := by
  cases x with
  | error stop => rfl
  | ok p => exact h p.1 p.2 rfl

/-- One step more than enough changes nothing. -/
theorem all_succ (e : Encoding) (limits : Limits) (fuel : Nat) :
    (∀ depth cs, 2 * cs.length + 1 ≤ fuel →
        value e limits fuel depth cs = value e limits (fuel + 1) depth cs) ∧
      (∀ depth cs, 2 * cs.length + 2 ≤ fuel →
        items e limits fuel depth cs = items e limits (fuel + 1) depth cs) ∧
      ∀ depth cs, 2 * cs.length + 2 ≤ fuel →
        entries e limits fuel depth cs = entries e limits (fuel + 1) depth cs := by
  induction fuel with
  | zero => exact ⟨fun _ _ h => absurd h (by omega), fun _ _ h => absurd h (by omega),
      fun _ _ h => absurd h (by omega)⟩
  | succ fuel ih =>
    obtain ⟨hvalue, hitems, hentries⟩ := ih
    refine ⟨?_, ?_, ?_⟩
    · intro depth cs hfuel
      rcases cs with _ | ⟨c, cs⟩
      · rfl
      have hskip := length_skip_le cs
      rw [List.length_cons] at hfuel
      rw [value, value]
      cases hds : skip cs with
      | nil => rfl
      | cons d ds =>
        rw [hds] at hskip
        dsimp only
        rw [hitems (depth - 1) (d :: ds) (by omega), hentries depth (d :: ds) (by omega)]
    · intro depth cs hfuel
      rw [items, items, hvalue depth cs (by omega)]
      refine bind_congr_ok fun j r₁ hj => bind_congr_ok fun more r₂ hmore => ?_
      have hj := (all_forward e limits (fuel + 1) depth).1 hj
      have hmore := nextPart_forward hmore
      dsimp only at hj hmore ⊢
      rw [hitems depth r₂ (by omega)]
    · intro depth cs hfuel
      rw [entries, entries]
      refine bind_congr_ok fun k r₁ hk => ?_
      have hk := key_forward e hk
      dsimp only at hk ⊢
      rw [hvalue (depth - 1) r₁ (by omega)]
      split
      · rfl
      refine bind_congr_ok fun j r₂ hj => bind_congr_ok fun more r₃ hmore => ?_
      have hj := (all_forward e limits (fuel + 1) (depth - 1)).1 hj
      have hmore := nextPart_forward hmore
      dsimp only at hj hmore ⊢
      rw [hentries depth r₃ (by omega)]

/-- A value, read with all steps that it can need. -/
def valueIn (e : Encoding) (limits : Limits) (depth : Nat) (cs : List Char) :
    Except Stop (Json × List Char) :=
  value e limits (2 * cs.length + 1) depth cs

/-- The items of a list, read with all steps that they can need. -/
def itemsIn (e : Encoding) (limits : Limits) (depth : Nat) (cs : List Char) :
    Except Stop (List Json × List Char) :=
  items e limits (2 * cs.length + 2) depth cs

/-- The entries of an object, read with all steps that they can need. -/
def entriesIn (e : Encoding) (limits : Limits) (depth : Nat) (cs : List Char) :
    Except Stop (List (String × Json) × List Char) :=
  entries e limits (2 * cs.length + 2) depth cs

/-- **Steps.** With twice as many steps as the text is long the reader never runs out of them. -/
theorem value_of_le (h : 2 * cs.length + 1 ≤ fuel) :
    value e limits fuel depth cs = valueIn e limits depth cs := by
  induction fuel, h using Nat.le_induction with
  | base => rfl
  | succ fuel h ih => rw [← (all_succ e limits fuel).1 depth cs h, ih]

/-- With twice as many steps as the text is long, items are read as with all steps. -/
theorem items_of_le (h : 2 * cs.length + 2 ≤ fuel) :
    items e limits fuel depth cs = itemsIn e limits depth cs := by
  induction fuel, h using Nat.le_induction with
  | base => rfl
  | succ fuel h ih => rw [← (all_succ e limits fuel).2.1 depth cs h, ih]

/-- With twice as many steps as the text is long, entries are read as with all steps. -/
theorem entries_of_le (h : 2 * cs.length + 2 ≤ fuel) :
    entries e limits fuel depth cs = entriesIn e limits depth cs := by
  induction fuel, h using Nat.le_induction with
  | base => rfl
  | succ fuel h ih => rw [← (all_succ e limits fuel).2.2 depth cs h, ih]

/-! ## Readers without steps -/

/-- A list is empty, or has items up to its closing bracket. -/
theorem valueIn_list (cs : List Char) :
    valueIn e limits depth ('[' :: cs) = match skip cs with
      | [] => .error ⟨.endInList, []⟩
      | d :: rest =>
        if d = ']' then .ok (.array [], rest)
        else if depth = 0 then .error ⟨.tooDeep, d :: rest⟩
        else do
          let (js, rest) ← itemsIn e limits (depth - 1) (d :: rest)
          return (.array js, rest) := by
  have hskip := length_skip_le cs
  rw [valueIn, List.length_cons, value, if_pos rfl]
  cases hds : skip cs with
  | nil => rfl
  | cons d ds =>
    rw [hds] at hskip
    dsimp only
    rw [items_of_le (by omega)]

/-- An object is empty, or has entries up to its closing brace. -/
theorem valueIn_table (cs : List Char) :
    valueIn e limits depth ('{' :: cs) = match skip cs with
      | [] => .error ⟨.endInObject, []⟩
      | d :: rest =>
        if d = '}' then .ok (.object [], rest)
        else do
          let (es, rest) ← entriesIn e limits depth (d :: rest)
          return (.object (table es), rest) := by
  have hskip := length_skip_le cs
  rw [valueIn, List.length_cons, value, if_neg (by decide), if_pos rfl]
  cases hds : skip cs with
  | nil => rfl
  | cons d ds =>
    rw [hds] at hskip
    dsimp only
    rw [entries_of_le (by omega)]

/-- What begins with neither bracket nor brace holds no other value. -/
theorem valueIn_scalar {c : Char} (hlist : c ≠ '[') (htable : c ≠ '{') (cs : List Char) :
    valueIn e limits depth (c :: cs) = scalar e limits (c :: cs) := by
  rw [valueIn, value, if_neg hlist, if_neg htable]

/-- Items are a value and, after a comma, other items. -/
theorem itemsIn_eq (cs : List Char) : itemsIn e limits depth cs = do
    let (j, rest) ← valueIn e limits depth cs
    let (more, rest) ← nextItem rest
    if more then
      let (js, rest) ← itemsIn e limits depth rest
      return (j :: js, rest)
    else
      return ([j], rest) := by
  rw [itemsIn, items]
  refine bind_congr_ok fun j r₁ hj => bind_congr_ok fun more r₂ hmore => ?_
  have hj := (all_forward e limits _ depth).1 hj
  have hmore := nextPart_forward hmore
  dsimp only at hj hmore ⊢
  rw [items_of_le (by omega)]

/-- Entries are a key, a value and, after a comma, other entries. -/
theorem entriesIn_eq (cs : List Char) : entriesIn e limits depth cs = do
    let (k, rest) ← key e cs
    if depth = 0 ∧ rest ≠ [] then
      throw ⟨.tooDeep, rest⟩
    let (j, rest) ← valueIn e limits (depth - 1) rest
    let (more, rest) ← nextEntry rest
    if more then
      let (es, rest) ← entriesIn e limits depth rest
      return ((k, j) :: es, rest)
    else
      return ([(k, j)], rest) := by
  rw [entriesIn, entries]
  refine bind_congr_ok fun k r₁ hk => ?_
  have hk := key_forward e hk
  dsimp only at hk ⊢
  rw [value_of_le (by omega)]
  split
  · rfl
  refine bind_congr_ok fun j r₂ hj => bind_congr_ok fun more r₃ hmore => ?_
  have hj := (all_forward e limits _ (depth - 1)).1 hj
  have hmore := nextPart_forward hmore
  dsimp only at hj hmore ⊢
  rw [entries_of_le (by omega)]

/-- A whole text is read with steps enough. -/
theorem document_eq (cs : List Char) :
    document e limits cs = valueIn e limits limits.depth (skip cs) >>= fun p =>
      if skip p.2 = [] then .ok p.1 else .error ⟨.trailingCharacters, skip p.2⟩ := by
  have hskip := length_skip_le cs
  rw [document, value_of_le (by omega)]
  refine bind_congr_ok fun j r _ => ?_
  dsimp only
  cases skip r <;> rfl

end Diagnostics.Json
