import Diagnostics.Proofs.Json.ReadBack
import Mathlib.Data.List.Forall2
import Mathlib.Data.List.TakeWhile

/-!
# Texts inside of texts

What the reader finds in front of a text it finds there too when something follows the text, as long
as the text cannot go on with it: a number is cut short by a comma or a bracket, and everything else
ends by itself. So a text that spells a value spells it under wider limits as well (`read_of_le`),
and texts with commas between them and brackets around them spell the list of their values
(`read_listText`).
-/

namespace Diagnostics.Json

variable {α β : Type} {e : Encoding} {limits limits' : Limits} {cs r rest : List Char}

/-- One reader after another succeeds when each of them does. -/
theorem bind_eq_ok {x : Except Stop α} {f : α → Except Stop β} {b : β} :
    (x >>= f) = .ok b ↔ ∃ a, x = .ok a ∧ f a = .ok b := by
  cases x with
  | error stop => simp [bind, Except.bind]
  | ok a => simp [bind, Except.bind]

/-- Space in front of something is skipped whatever follows. -/
theorem skip_append {c : Char} {ds : List Char} (h : skip cs = c :: ds) :
    skip (cs ++ rest) = c :: (ds ++ rest) := by
  induction cs with
  | nil => cases h
  | cons d cs ih =>
    rw [skip, List.cons_append, List.dropWhile_cons] at *
    split at h
    · next hd =>
      rw [if_pos hd]
      exact ih h
    · next hd =>
      rw [if_neg hd]
      cases h
      rfl

/-- A word is found in front of a text whatever follows. -/
theorem word_append {ws : List Char} (h : word ws cs = .ok r) :
    word ws (cs ++ rest) = .ok (r ++ rest) := by
  induction ws generalizing cs with
  | nil => cases h; rfl
  | cons w ws ih =>
    cases cs with
    | nil => cases h
    | cons c cs =>
      rw [word] at h
      rw [List.cons_append, word]
      split at h
      · next hc => rw [if_pos hc, ih h]
      · cases h

/-! ## Numbers -/

/-- What does not go on as a number has no digits in front. -/
theorem takeWhile_append_ends (hrest : Ends rest) (cs : List Char) :
    (cs ++ rest).takeWhile Char.isDigit = cs.takeWhile Char.isDigit ∧
      (cs ++ rest).dropWhile Char.isDigit = cs.dropWhile Char.isDigit ++ rest := by
  induction cs with
  | nil =>
    rcases rest with _ | ⟨c, rest⟩
    · exact ⟨rfl, rfl⟩
    · have hc := (hrest c rfl).1
      simp [hc]
  | cons c cs ih =>
    rw [List.cons_append, List.takeWhile_cons, List.takeWhile_cons, List.dropWhile_cons,
      List.dropWhile_cons, ih.1, ih.2]
    split
    · exact ⟨rfl, rfl⟩
    · exact ⟨rfl, rfl⟩

/-- Digits that end where the text ends are cut short by what follows. -/
theorem someDigits_continued {ds : List Char} (hrest : Ends rest)
    (h : someDigits cs = .ok (ds, r)) : someDigits (cs ++ rest) = .ok (ds, r ++ rest) := by
  rcases cs with _ | ⟨c, cs⟩
  · cases h
  · obtain ⟨htake, hdrop⟩ := takeWhile_append_ends hrest (c :: cs)
    rw [someDigits] at h
    split at h
    · next hc =>
      obtain ⟨rfl, rfl⟩ := Prod.mk.inj (Except.ok.inj h)
      rw [List.cons_append] at *
      rw [someDigits, if_pos hc, htake, hdrop]
    · cases h

/-- A fraction that ends where the text ends is cut short by what follows. -/
theorem fraction_continued {ds : List Char} (hrest : Ends rest) (h : fraction cs = .ok (ds, r)) :
    fraction (cs ++ rest) = .ok (ds, r ++ rest) := by
  rcases cs with _ | ⟨c, cs⟩
  · cases h
    exact fraction_ends hrest
  · rw [fraction] at h
    rw [List.cons_append, fraction]
    split at h
    · next hc =>
      rw [if_pos hc]
      exact someDigits_continued hrest h
    · next hc =>
      cases h
      rw [if_neg hc, List.cons_append]

/-- A sign in front of a text stays there whatever follows. -/
theorem splitSign_append {negative : Bool} {ds : List Char} (hne : cs ≠ [])
    (h : Digits.splitSign cs = (negative, ds)) :
    Digits.splitSign (cs ++ rest) = (negative, ds ++ rest) := by
  rcases cs with _ | ⟨c, cs⟩
  · exact absurd rfl hne
  · rw [Digits.splitSign] at h
    rw [List.cons_append, Digits.splitSign]
    split at h
    · next hminus =>
      cases h
      rw [if_pos hminus]
    · next hminus =>
      rw [if_neg hminus]
      split at h
      · next hplus =>
        cases h
        rw [if_pos hplus]
      · next hplus =>
        cases h
        rw [if_neg hplus, List.cons_append]

/-- An exponent, or none, is cut short by what follows. -/
theorem exponent?_continued {e? : Option Int} (hrest : Ends rest)
    (h : exponent? cs = .ok (e?, r)) : exponent? (cs ++ rest) = .ok (e?, r ++ rest) := by
  rcases cs with _ | ⟨c, cs⟩
  · cases h
    exact exponent?_ends hrest
  · rw [exponent?] at h
    rw [List.cons_append, exponent?]
    split at h
    · next hc =>
      have hne : cs ≠ [] := by
        rintro rfl
        cases h
      rcases hsign : Digits.splitSign cs with ⟨negative, ds⟩
      rw [hsign] at h
      obtain ⟨⟨es, r'⟩, hes, h⟩ := bind_eq_ok.1 h
      cases h
      rw [if_pos hc, splitSign_append hne hsign]
      exact bind_eq_ok.2 ⟨_, someDigits_continued hrest hes, rfl⟩
    · next hc =>
      cases h
      rw [if_neg hc, List.cons_append]

/-- A number is cut short by what follows, and is no longer than wider limits allow. -/
theorem magnitude_continued {negative : Bool} {j : Json} (hrest : Ends rest)
    (hdigits : limits.characters ≤ limits'.characters) (h : magnitude limits negative cs = .ok (j, r)) :
    magnitude limits' negative (cs ++ rest) = .ok (j, r ++ rest) := by
  rcases hds : someDigits cs with _ | ⟨ds, r₁⟩
  · simp only [magnitude, hds, bind, Except.bind] at h
    cases h
  by_cases hzero : 1 < ds.length ∧ ds.head? = some '0'
  · simp only [magnitude, hds, bind, Except.bind, if_pos hzero] at h
    cases h
  by_cases hlong : limits.characters < ds.length + negative.toNat
  · simp only [magnitude, hds, bind, Except.bind, if_neg hzero, if_pos hlong] at h
    cases h
  rcases hdecimals : fraction r₁ with _ | ⟨decimals, r₂⟩
  · simp only [magnitude, hds, bind, Except.bind, if_neg hzero, if_neg hlong, hdecimals] at h
    cases h
  rcases hexponent : exponent? r₂ with _ | ⟨e?, r₃⟩
  · simp only [magnitude, hds, bind, Except.bind, if_neg hzero, if_neg hlong, hdecimals,
      hexponent] at h
    cases h
  have hlong' : ¬ limits'.characters < ds.length + negative.toNat := by omega
  simp only [magnitude, hds, bind, Except.bind, if_neg hzero, if_neg hlong, if_neg hlong', hdecimals,
    hexponent, someDigits_continued hrest hds, fraction_continued hrest hdecimals,
    exponent?_continued hrest hexponent] at h ⊢
  split at h
  · next hint =>
    cases h
    rw [if_pos hint]
    rfl
  · next hint =>
    cases h
    rw [if_neg hint]
    rfl

/-- What comes after a minus is cut short by what follows. -/
theorem afterMinus_continued {j : Json} (hrest : Ends rest)
    (hdigits : limits.characters ≤ limits'.characters) (h : afterMinus limits cs = .ok (j, r)) :
    afterMinus limits' (cs ++ rest) = .ok (j, r ++ rest) := by
  rcases cs with _ | ⟨c, cs⟩
  · cases h
  · rw [afterMinus] at h
    rw [List.cons_append, afterMinus]
    split at h
    · next hc =>
      obtain ⟨r', hr, h⟩ := bind_eq_ok.1 h
      cases h
      rw [if_pos hc]
      exact bind_eq_ok.2 ⟨_, word_append hr, rfl⟩
    · next hc =>
      rw [if_neg hc]
      exact magnitude_continued hrest hdigits h

/-! ## Texts -/

/-- Four digits are four digits whatever follows. -/
theorem hexDigits_append {count m n : Nat} (h : hexDigits count m cs = .ok (n, r))
    (rest : List Char) :
    hexDigits count m (cs ++ rest) = .ok (n, r ++ rest) ∧
      (cs ++ rest).take count = cs.take count := by
  induction count generalizing m cs with
  | zero => cases h; exact ⟨rfl, rfl⟩
  | succ count ih =>
    cases cs with
    | nil => cases h
    | cons c cs =>
      rw [hexDigits] at h
      rw [List.cons_append, hexDigits]
      split at h
      · obtain ⟨hread, htake⟩ := ih h
        rw [List.take_succ_cons, List.take_succ_cons, htake]
        exact ⟨hread, rfl⟩
      · cases h

/-- A code has a fixed length, so what follows does not belong to it. -/
theorem code_append {n : Nat} (h : code e cs = .ok (n, r)) :
    code e (cs ++ rest) = .ok (n, r ++ rest) := by
  rw [code] at h
  split at h
  · cases h
  · next hsize =>
    obtain ⟨hread, htake⟩ := hexDigits_append h rest
    rw [code, htake, if_neg hsize, hread]

/-- The second code of a pair has a fixed length as well. -/
theorem escapedLow_append {n : Nat} (h : escapedLow e cs = .ok (n, r)) :
    escapedLow e (cs ++ rest) = .ok (n, r ++ rest) := by
  rcases cs with _ | ⟨c, cs⟩
  · cases h
  · rw [escapedLow] at h
    rw [List.cons_append, escapedLow]
    split at h
    · next hc =>
      obtain ⟨⟨low, r'⟩, hlow, h⟩ := bind_eq_ok.1 h
      rw [if_pos hc]
      refine bind_eq_ok.2 ⟨_, code_append hlow, ?_⟩
      dsimp only at h ⊢
      split at h
      · next hl =>
        cases h
        exact if_pos hl
      · cases h
    · cases h

/-- A pair is complete where its second code is. -/
theorem lowHalf_append {n : Nat} (h : lowHalf e cs = .ok (n, r)) :
    lowHalf e (cs ++ rest) = .ok (n, r ++ rest) := by
  rcases cs with _ | ⟨c, cs⟩
  · cases h
  · rw [lowHalf] at h
    rw [List.cons_append, lowHalf]
    split at h
    · next hc =>
      rw [if_pos hc]
      exact escapedLow_append h
    · cases h

/-- A coded character ends by itself. -/
theorem coded_append {d : Char} (h : coded e cs = .ok (d, r)) :
    coded e (cs ++ rest) = .ok (d, r ++ rest) := by
  rw [coded] at h ⊢
  obtain ⟨⟨n, r'⟩, hn, h⟩ := bind_eq_ok.1 h
  refine bind_eq_ok.2 ⟨_, code_append hn, ?_⟩
  dsimp only at h ⊢
  split at h
  · cases h
  · next hlow =>
    rw [if_neg hlow]
    split at h
    · next hhigh =>
      obtain ⟨⟨low, r''⟩, hl, h⟩ := bind_eq_ok.1 h
      obtain ⟨rfl, rfl⟩ := Prod.mk.inj (Except.ok.inj h)
      rw [if_pos hhigh]
      exact bind_eq_ok.2 ⟨_, lowHalf_append hl, rfl⟩
    · next hhigh =>
      obtain ⟨rfl, rfl⟩ := Prod.mk.inj (Except.ok.inj h)
      exact if_neg hhigh

/-- An escape ends by itself, whichever it is. -/
theorem escape_append {d : Char} (h : escape e cs = .ok (d, r)) :
    escape e (cs ++ rest) = .ok (d, r ++ rest) := by
  rcases cs with _ | ⟨c, cs⟩
  · cases h
  · rw [escape] at h
    rw [List.cons_append, escape]
    split at h
    · next hc =>
      rw [if_pos hc]
      exact coded_append h
    · next hc =>
      rw [if_neg hc]
      split at h
      · cases h
        rfl
      · cases h

/-- More fuel than enough reads the same. -/
theorem textBody_append {fuel fuel' : Nat} {ds : List Char} (hfuel : fuel ≤ fuel')
    (h : textBody e fuel cs = .ok (ds, r)) :
    textBody e fuel' (cs ++ rest) = .ok (ds, r ++ rest) := by
  induction fuel generalizing fuel' cs ds with
  | zero => cases h
  | succ fuel ih =>
    obtain ⟨fuel', rfl⟩ := Nat.exists_eq_add_of_le' (Nat.le_trans (Nat.le_add_left 1 fuel) hfuel)
    replace hfuel := Nat.le_of_succ_le_succ hfuel
    rcases cs with _ | ⟨c, cs⟩
    · cases h
    rw [textBody] at h
    rw [List.cons_append, textBody]
    split at h
    · next hquote =>
      cases h
      rw [if_pos hquote]
    next hquote =>
    rw [if_neg hquote]
    split at h
    · next hback =>
      obtain ⟨⟨d, r'⟩, hd, h⟩ := bind_eq_ok.1 h
      obtain ⟨⟨ds', r''⟩, hds, h⟩ := bind_eq_ok.1 h
      cases h
      rw [if_pos hback]
      exact bind_eq_ok.2 ⟨_, escape_append hd, bind_eq_ok.2 ⟨_, ih hfuel hds, rfl⟩⟩
    next hback =>
    rw [if_neg hback]
    split at h
    · cases h
    · next hcontrol =>
      obtain ⟨⟨ds', r'⟩, hds, h⟩ := bind_eq_ok.1 h
      cases h
      rw [if_neg hcontrol]
      exact bind_eq_ok.2 ⟨_, ih hfuel hds, rfl⟩

/-- A text ends at its closing quote whatever follows. -/
theorem quoted_append {s : String} (h : quoted e cs = .ok (s, r)) :
    quoted e (cs ++ rest) = .ok (s, r ++ rest) := by
  rw [quoted] at h ⊢
  obtain ⟨⟨ds, r'⟩, hds, h⟩ := bind_eq_ok.1 h
  have hfuel : cs.length + 1 ≤ (cs ++ rest).length + 1 := by
    rw [List.length_append]
    omega
  refine bind_eq_ok.2 ⟨_, textBody_append hfuel hds, ?_⟩
  dsimp only at h ⊢
  split at h
  · cases h
    rfl
  · cases h

/-! ## Values -/

/-- A value that holds no other ends by itself, or is a number, which is cut short. -/
theorem scalar_continued {j : Json} (hrest : Ends rest) (hdigits : limits.characters ≤ limits'.characters)
    (h : scalar e limits cs = .ok (j, r)) : scalar e limits' (cs ++ rest) = .ok (j, r ++ rest) := by
  have words : ∀ (ws ds : List Char) (i : Json),
      (do return (i, ← word ws ds) : Except Stop (Json × List Char)) = .ok (j, r) →
        (do return (i, ← word ws (ds ++ rest)) : Except Stop (Json × List Char)) =
          .ok (j, r ++ rest) := by
    intro ws ds i h
    obtain ⟨r', hr, h⟩ := bind_eq_ok.1 h
    cases h
    exact bind_eq_ok.2 ⟨_, word_append hr, rfl⟩
  rcases cs with _ | ⟨c, cs⟩
  · cases h
  rw [scalar] at h
  rw [List.cons_append, scalar]
  by_cases hquote : c = '"'
  · rw [if_pos hquote] at h ⊢
    obtain ⟨⟨s, r'⟩, hs, h⟩ := bind_eq_ok.1 h
    cases h
    exact bind_eq_ok.2 ⟨_, quoted_append hs, rfl⟩
  rw [if_neg hquote] at h ⊢
  by_cases htrue : c = 't'
  · rw [if_pos htrue] at h ⊢
    exact words _ _ _ h
  rw [if_neg htrue] at h ⊢
  by_cases hfalse : c = 'f'
  · rw [if_pos hfalse] at h ⊢
    exact words _ _ _ h
  rw [if_neg hfalse] at h ⊢
  by_cases hnull : c = 'n'
  · rw [if_pos hnull] at h ⊢
    exact words _ _ _ h
  rw [if_neg hnull] at h ⊢
  by_cases hnan : c = 'N'
  · rw [if_pos hnan] at h ⊢
    exact words _ _ _ h
  rw [if_neg hnan] at h ⊢
  by_cases hinf : c = 'I'
  · rw [if_pos hinf] at h ⊢
    exact words _ _ _ h
  rw [if_neg hinf] at h ⊢
  by_cases hminus : c = '-'
  · rw [if_pos hminus] at h ⊢
    exact afterMinus_continued hrest hdigits h
  rw [if_neg hminus] at h ⊢
  split at h
  · next hdigit =>
    rw [if_pos hdigit]
    exact magnitude_continued hrest hdigits h
  · cases h

section Values

/-- Whether an item of a list may end here: nothing follows, or a comma or a closing bracket. -/
def EndsItem (rest : List Char) : Prop := ∀ c ∈ rest.head?, c = ',' ∨ c = ']'

/-- What ends an item does not go on with a number. -/
theorem EndsItem.ends (h : EndsItem rest) : Ends rest := by
  intro c hc
  rcases h c hc with rfl | rfl
  · decide
  · decide

/-- Nothing that ends an item is space. -/
theorem EndsItem.skip_append (h : EndsItem rest) (cs : List Char) :
    skip (cs ++ rest) = skip cs ++ rest := by
  cases hcs : skip cs with
  | cons c ds => exact Json.skip_append hcs
  | nil =>
    have hspace : ∀ c ∈ cs, isSpace c = true := List.dropWhile_eq_nil_iff.1 hcs
    rw [skip, List.dropWhile_append_of_pos hspace, List.nil_append]
    rcases rest with _ | ⟨c, rest⟩
    · rfl
    · refine skip_cons rest ?_
      rcases h c rfl with rfl | rfl
      · decide
      · decide

/-- What follows a colon is the same in front of what ends an item. -/
theorem colon_continued (hrest : EndsItem rest) (h : colon cs = .ok r) :
    colon (cs ++ rest) = .ok (r ++ rest) := by
  rcases hskip : skip cs with _ | ⟨c, ds⟩
  · rw [colon, hskip] at h
    cases h
  · rw [colon, hskip] at h
    rw [colon, skip_append hskip]
    dsimp only at h ⊢
    split at h
    · next hc =>
      cases h
      rw [if_pos hc, hrest.skip_append]
    · cases h

/-- A key with its colon ends by itself. -/
theorem key_continued {k : String} (hrest : EndsItem rest) (h : key e cs = .ok (k, r)) :
    key e (cs ++ rest) = .ok (k, r ++ rest) := by
  rcases cs with _ | ⟨c, cs⟩
  · cases h
  · rw [key] at h
    rw [List.cons_append, key]
    split at h
    · next hc =>
      obtain ⟨⟨k', r'⟩, hk, h⟩ := bind_eq_ok.1 h
      obtain ⟨r'', hr, h⟩ := bind_eq_ok.1 h
      cases h
      rw [if_pos hc]
      exact bind_eq_ok.2 ⟨_, quoted_append hk, bind_eq_ok.2 ⟨_, colon_continued hrest hr, rfl⟩⟩
    · cases h

/-- What follows one of several parts that come before a closing character: nothing behind it, or
the next part after a comma. -/
def nextPart (close : Char) (unclosed expected : Fault) (cs : List Char) :
    Except Stop (Bool × List Char) :=
  match skip cs with
  | [] => .error ⟨unclosed, []⟩
  | c :: rest =>
    if c = close then .ok (false, rest)
    else if c = ',' then
      match skip rest with
      | [] => .error ⟨.endInValue, []⟩
      | d :: rest => if d = close then .error ⟨.trailingComma, d :: rest⟩ else .ok (true, d :: rest)
    else .error ⟨expected, c :: rest⟩

/-- What comes after a part is found whatever follows. -/
theorem nextPart_append {close : Char} {unclosed expected : Fault} {more : Bool}
    (h : nextPart close unclosed expected cs = .ok (more, r)) :
    nextPart close unclosed expected (cs ++ rest) = .ok (more, r ++ rest) := by
  rcases hskip : skip cs with _ | ⟨c, ds⟩
  · rw [nextPart, hskip] at h
    cases h
  rw [nextPart, hskip] at h
  rw [nextPart, skip_append hskip]
  dsimp only at h ⊢
  split at h
  · next hclose =>
    cases h
    exact if_pos hclose
  next hclose =>
  rw [if_neg hclose]
  split at h
  · next hcomma =>
    rw [if_pos hcomma]
    rcases hskip : skip ds with _ | ⟨d, ds'⟩
    · rw [hskip] at h
      cases h
    rw [hskip] at h
    rw [skip_append hskip]
    dsimp only at h ⊢
    split at h
    · cases h
    · next hd =>
      cases h
      exact if_neg hd
  · cases h

/-- Items are followed by a comma or a closing bracket. -/
theorem nextItem_eq (cs : List Char) :
    nextItem cs = nextPart ']' .endInList .expectedListEnd cs := rfl

/-- Entries are followed by a comma or a closing brace. -/
theorem nextEntry_eq (cs : List Char) :
    nextEntry cs = nextPart '}' .endInObject .expectedObjectEnd cs := rfl

/-- What comes after an item is found whatever follows. -/
theorem nextItem_append {more : Bool} (h : nextItem cs = .ok (more, r)) :
    nextItem (cs ++ rest) = .ok (more, r ++ rest) := by
  rw [nextItem_eq] at h ⊢
  exact nextPart_append h

/-- What comes after an entry is found whatever follows. -/
theorem nextEntry_append {more : Bool} (h : nextEntry cs = .ok (more, r)) :
    nextEntry (cs ++ rest) = .ok (more, r ++ rest) := by
  rw [nextEntry_eq] at h ⊢
  exact nextPart_append h

/-- What the first reader makes of a text, the second makes of the text with `rest` behind it. -/
def Continued (rest : List Char) (f g : List Char → Except Stop (α × List Char)) : Prop :=
  ∀ ⦃cs r : List Char⦄ ⦃a : α⦄, f cs = .ok (a, r) → g (cs ++ rest) = .ok (a, r ++ rest)

variable {fuel fuel' depth depth' : Nat}

/-- A value goes on as its items or its entries do: one step of the induction on steps. -/
theorem value_continued_of (hrest : EndsItem rest) (hdigits : limits.characters ≤ limits'.characters)
    (hdepth : depth ≤ depth')
    (hitems : Continued rest (items e limits fuel (depth - 1)) (items e limits' fuel' (depth' - 1)))
    (hentries : Continued rest (entries e limits fuel depth) (entries e limits' fuel' depth')) :
    Continued rest (value e limits (fuel + 1) depth) (value e limits' (fuel' + 1) depth') := by
  intro cs r j h
  rcases cs with _ | ⟨c, cs⟩
  · cases h
  rw [value] at h
  rw [List.cons_append, value]
  by_cases hlist : c = '['
  · rw [if_pos hlist] at h ⊢
    rcases hskip : skip cs with _ | ⟨d, ds⟩
    · rw [hskip] at h
      cases h
    rw [hskip] at h
    rw [skip_append hskip]
    dsimp only at h ⊢
    split at h
    · next hclose =>
      cases h
      rw [if_pos hclose]
    next hclose =>
    rw [if_neg hclose]
    split at h
    · cases h
    · next hzero =>
      obtain ⟨⟨js, r'⟩, hjs, h⟩ := bind_eq_ok.1 h
      cases h
      rw [if_neg (by omega)]
      exact bind_eq_ok.2 ⟨_, hitems hjs, rfl⟩
  rw [if_neg hlist] at h ⊢
  by_cases htable : c = '{'
  · rw [if_pos htable] at h ⊢
    rcases hskip : skip cs with _ | ⟨d, ds⟩
    · rw [hskip] at h
      cases h
    rw [hskip] at h
    rw [skip_append hskip]
    dsimp only at h ⊢
    split at h
    · next hclose =>
      cases h
      rw [if_pos hclose]
    · next hclose =>
      obtain ⟨⟨es, r'⟩, hes, h⟩ := bind_eq_ok.1 h
      cases h
      rw [if_neg hclose]
      exact bind_eq_ok.2 ⟨_, hentries hes, rfl⟩
  · rw [if_neg htable] at h ⊢
    exact scalar_continued hrest.ends hdigits h

/-- Items go on as the first of them and the others do. -/
theorem items_continued_of
    (hvalue : Continued rest (value e limits fuel depth) (value e limits' fuel' depth'))
    (hitems : Continued rest (items e limits fuel depth) (items e limits' fuel' depth')) :
    Continued rest (items e limits (fuel + 1) depth) (items e limits' (fuel' + 1) depth') := by
  intro cs r js h
  rw [items] at h ⊢
  obtain ⟨⟨j, r₁⟩, hj, h⟩ := bind_eq_ok.1 h
  obtain ⟨⟨more, r₂⟩, hmore, h⟩ := bind_eq_ok.1 h
  refine bind_eq_ok.2 ⟨_, hvalue hj, bind_eq_ok.2 ⟨_, nextItem_append hmore, ?_⟩⟩
  cases more with
  | false =>
    cases h
    rfl
  | true =>
    obtain ⟨⟨js', r₃⟩, hjs, h⟩ := bind_eq_ok.1 h
    cases h
    exact bind_eq_ok.2 ⟨_, hitems hjs, rfl⟩

/-- A value begins with something, and that is no closing bracket. -/
theorem exists_cons_of_value {a : Json × List Char} (h : value e limits fuel depth cs = .ok a) :
    ∃ c ds, cs = c :: ds ∧ c ≠ ']' := by
  rcases fuel with _ | fuel
  · cases h
  rcases cs with _ | ⟨c, ds⟩
  · cases h
  · refine ⟨c, ds, rfl, ?_⟩
    rintro rfl
    cases h

/-- So do items. -/
theorem exists_cons_of_items {b : List Json × List Char}
    (h : items e limits fuel depth cs = .ok b) : ∃ c ds, cs = c :: ds ∧ c ≠ ']' := by
  rcases fuel with _ | fuel
  · cases h
  · rw [items] at h
    obtain ⟨a, ha, -⟩ := bind_eq_ok.1 h
    exact exists_cons_of_value ha

/-- Entries go on as the first value and the other entries do. -/
theorem entries_continued_of (hrest : EndsItem rest) (hdepth : depth ≤ depth')
    (hvalue : Continued rest (value e limits fuel (depth - 1)) (value e limits' fuel' (depth' - 1)))
    (hentries : Continued rest (entries e limits fuel depth) (entries e limits' fuel' depth')) :
    Continued rest (entries e limits (fuel + 1) depth) (entries e limits' (fuel' + 1) depth') := by
  intro cs r es h
  rw [entries] at h ⊢
  obtain ⟨⟨k, r₁⟩, hk, h⟩ := bind_eq_ok.1 h
  -- at depth zero nothing is left for the value
  have hroom : depth ≠ 0 := by
    rintro rfl
    rcases r₁ with _ | ⟨c, r₁⟩
    · obtain ⟨a, ha, -⟩ := bind_eq_ok.1 h
      obtain ⟨c, ds, hnil, -⟩ := exists_cons_of_value ha
      cases hnil
    · cases h
  have hopen : ¬ (depth = 0 ∧ r₁ ≠ []) := fun h => hroom h.1
  have hopen' : ¬ (depth' = 0 ∧ r₁ ++ rest ≠ []) := fun h => by omega
  refine bind_eq_ok.2 ⟨_, key_continued hrest hk, ?_⟩
  dsimp only at h ⊢
  rw [if_neg hopen] at h
  rw [if_neg hopen']
  obtain ⟨⟨j, r₂⟩, hj, h⟩ := bind_eq_ok.1 h
  obtain ⟨⟨more, r₃⟩, hmore, h⟩ := bind_eq_ok.1 h
  refine bind_eq_ok.2 ⟨_, hvalue hj, bind_eq_ok.2 ⟨_, nextEntry_append hmore, ?_⟩⟩
  cases more with
  | false =>
    cases h
    rfl
  | true =>
    obtain ⟨⟨es', r₄⟩, hes, h⟩ := bind_eq_ok.1 h
    cases h
    exact bind_eq_ok.2 ⟨_, hentries hes, rfl⟩

/-- The readers that call each other, by induction on the steps that the first of them may take. -/
theorem all_continued (hrest : EndsItem rest) (hdigits : limits.characters ≤ limits'.characters)
    (hfuel : fuel ≤ fuel') (hdepth : depth ≤ depth') :
    Continued rest (value e limits fuel depth) (value e limits' fuel' depth') ∧
      Continued rest (items e limits fuel depth) (items e limits' fuel' depth') ∧
      Continued rest (entries e limits fuel depth) (entries e limits' fuel' depth') := by
  induction fuel generalizing fuel' depth depth' with
  | zero =>
    refine ⟨?_, ?_, ?_⟩
    · intro cs r a h
      cases h
    · intro cs r a h
      cases h
    · intro cs r a h
      cases h
  | succ fuel ih =>
    obtain ⟨fuel', rfl⟩ := Nat.exists_eq_add_of_le' (Nat.le_trans (Nat.le_add_left 1 fuel) hfuel)
    replace hfuel := Nat.le_of_succ_le_succ hfuel
    obtain ⟨hvalue, hitems, hentries⟩ := ih hfuel hdepth
    obtain ⟨hvalue', hitems', -⟩ := ih hfuel (Nat.sub_le_sub_right hdepth 1)
    exact ⟨value_continued_of hrest hdigits hdepth hitems' hentries,
      items_continued_of hvalue hitems, entries_continued_of hrest hdepth hvalue' hentries⟩

/-! ## Whole texts -/

/-- A whole text is one value with nothing but space around it. -/
theorem document_eq_ok {j : Json} :
    document e limits cs = .ok j ↔
      ∃ r, value e limits (2 * cs.length + 2) limits.depth (skip cs) = .ok (j, r) ∧ skip r = [] := by
  rw [document, bind_eq_ok]
  constructor
  · rintro ⟨⟨j', r⟩, hj, h⟩
    dsimp only at h
    split at h
    · next hr =>
      cases h
      exact ⟨r, hj, hr⟩
    · cases h
  · rintro ⟨r, hj, hr⟩
    refine ⟨(j, r), hj, ?_⟩
    dsimp only
    rw [hr]
    rfl

/-- Reading succeeds on what is a whole text in characters. -/
theorem read_eq_ok {text : String} {j : Json} :
    read limits text = .ok j ↔ document .characters limits text.toList = .ok j := by
  rw [read, readUnits]
  cases document .characters limits text.toList with
  | ok i => simp
  | error stop => simp

/-- What keeps narrow limits keeps wide ones. -/
theorem read_of_le {text : String} {j : Json} (hdepth : limits.depth ≤ limits'.depth)
    (hdigits : limits.characters ≤ limits'.characters) (h : read limits text = .ok j) :
    read limits' text = .ok j := by
  obtain ⟨r, hj, hr⟩ := document_eq_ok.1 (read_eq_ok.1 h)
  have hnil : EndsItem [] := by
    intro c hc
    cases hc
  have hj := (all_continued hnil hdigits (Nat.le_refl _) hdepth).1 hj
  rw [List.append_nil, List.append_nil] at hj
  exact read_eq_ok.2 (document_eq_ok.2 ⟨r, hj, hr⟩)

/-- After a comma there is another item, unless the list is closed. -/
theorem nextItem_of_skip {d : Char} {ds : List Char} (h : skip cs = ',' :: r)
    (hr : skip r = d :: ds) (hd : d ≠ ']') : nextItem cs = .ok (true, d :: ds) := by
  simp only [nextItem, h, hr, if_neg hd, Char.reduceEq, if_false, if_true]

/-- Texts with commas between them are the items of a list, if each of them is a text by itself. -/
theorem items_of_documents {j : Json} {js : List Json} {text : List Char}
    {texts : List (List Char)} (hdigits : limits.characters ≤ limits'.characters)
    (hdepth : limits.depth ≤ depth)
    (h : List.Forall₂ (fun t i => document e limits t = .ok i) (text :: texts) (j :: js))
    (hfuel : 2 * ([','].intercalate (text :: texts)).length + 3 ≤ fuel) :
    items e limits' fuel depth (skip ([','].intercalate (text :: texts) ++ [']'])) =
      .ok (j :: js, []) := by
  -- on the texts behind the first one; each but the last is read with a comma behind it
  induction texts generalizing text j js fuel with
  | nil =>
    obtain ⟨htext, hjs⟩ := List.forall₂_cons.1 h
    cases hjs
    obtain ⟨r, hj, hr⟩ := document_eq_ok.1 htext
    rw [List.intercalate_singleton] at hfuel ⊢
    obtain ⟨fuel, rfl⟩ := Nat.exists_eq_add_of_le' (Nat.le_trans (Nat.le_add_left 1 _) hfuel)
    have hclose : EndsItem [']'] := by
      intro c hc
      exact .inr (Option.some.inj hc).symm
    have hj := (all_continued hclose hdigits (by omega : _ ≤ fuel) hdepth).1 hj
    have hnext : nextItem (r ++ [']']) = .ok (false, []) := by
      rw [nextItem, hclose.skip_append, hr]
      rfl
    rw [hclose.skip_append, items]
    exact bind_eq_ok.2 ⟨_, hj, bind_eq_ok.2 ⟨_, hnext, rfl⟩⟩
  | cons text' texts ih =>
    obtain ⟨htext, hjs⟩ := List.forall₂_cons.1 h
    rcases js with _ | ⟨j', js⟩
    · cases hjs
    obtain ⟨r, hj, hr⟩ := document_eq_ok.1 htext
    rw [List.intercalate_cons_cons, List.append_assoc] at hfuel ⊢
    rw [List.append_assoc]
    simp only [List.length_append, List.length_singleton] at hfuel
    obtain ⟨fuel, rfl⟩ := Nat.exists_eq_add_of_le' (Nat.le_trans (Nat.le_add_left 1 _) hfuel)
    have hcomma : EndsItem ([','] ++ ([','].intercalate (text' :: texts) ++ [']'])) := by
      intro c hc
      exact .inl (Option.some.inj hc).symm
    have hj := (all_continued hcomma hdigits (by omega : _ ≤ fuel) hdepth).1 hj
    have hmore := ih hjs (by omega : _ ≤ fuel)
    obtain ⟨d, ds, hds, hd⟩ := exists_cons_of_items hmore
    have hskip := hcomma.skip_append r
    rw [hr] at hskip
    have hnext := nextItem_of_skip hskip hds hd
    rw [← hds] at hnext
    rw [hcomma.skip_append, items]
    exact bind_eq_ok.2 ⟨_, hj, bind_eq_ok.2 ⟨_, hnext, bind_eq_ok.2 ⟨_, hmore, rfl⟩⟩⟩

end Values

/-- The text of a list, from the texts of its items. -/
def listText (texts : List String) : String := "[" ++ ",".intercalate texts ++ "]"

/-- **Lists of texts.** Texts that spell values spell the list of these values, where one more level
is allowed. -/
theorem read_listText {texts : List String} {js : List Json} (hdepth : limits.depth < limits'.depth)
    (hdigits : limits.characters ≤ limits'.characters)
    (h : List.Forall₂ (fun t j => read limits t = .ok j) texts js) :
    read limits' (listText texts) = .ok (.array js) := by
  have hdocs : List.Forall₂ (fun t j => document .characters limits t = .ok j)
      (texts.map String.toList) js := by
    rw [List.forall₂_map_left_iff]
    exact h.imp fun _ _ => read_eq_ok.1
  have hlist : (listText texts).toList =
      '[' :: ([','].intercalate (texts.map String.toList) ++ [']']) := by
    rw [listText, String.toList_append, String.toList_append, String.toList_intercalate]
    rfl
  refine read_eq_ok.2 (document_eq_ok.2 ⟨[], ?_, rfl⟩)
  rw [hlist, skip_cons _ (by decide), value, if_pos rfl]
  rcases htexts : texts.map String.toList with _ | ⟨text, texts'⟩
  · rw [htexts] at hdocs
    cases hdocs
    rfl
  · rw [htexts] at hdocs
    rcases js with _ | ⟨j, js⟩
    · cases hdocs
    have hfuel : 2 * ([','].intercalate (text :: texts')).length + 3 ≤
        2 * ('[' :: ([','].intercalate (text :: texts') ++ [']'])).length + 1 := by
      simp only [List.length_cons, List.length_append, List.length_nil]
      omega
    have hitems := items_of_documents hdigits (Nat.le_sub_one_of_lt hdepth) hdocs hfuel
    obtain ⟨d, ds, hds, hd⟩ := exists_cons_of_items hitems
    rw [hds] at hitems ⊢
    dsimp only
    rw [if_neg hd, if_neg (by omega)]
    exact bind_eq_ok.2 ⟨_, hitems, rfl⟩

end Diagnostics.Json
