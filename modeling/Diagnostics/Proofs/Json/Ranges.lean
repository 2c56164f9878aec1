import Diagnostics.Proofs.Json.Around

/-!
# Texts of ranges

A range is written as a list of its two ends or as an object that names them (`RangeText`). Either
text is read as the ends are, one after the other, whatever the text around it (`RangeText.matched`):
so the one can be exchanged for the other (`RangeText.exchangeable`).
-/

namespace Diagnostics.Json

variable {e : Encoding} {limits : Limits} {i j : Json} {s t x y : List Char}

/-- The texts of a range from the texts of its ends. -/
inductive RangeText (e : Encoding) (s t : List Char) : List Char → Prop
  | list : RangeText e s t ('[' :: (s ++ ',' :: (t ++ [']'])))
  | table {k k' : List Char} (start : Names e "start" k) (stop : Names e "end" k') :
    RangeText e s t ('\x7b' :: (k ++ (s ++ ',' :: (k' ++ (t ++ ['}'])))))

/-- The values of a range from the values of its ends. -/
inductive IsRange (i j : Json) : Json → Prop
  | list : IsRange i j (.array [i, j])
  | table : IsRange i j (.object [("start", i), ("end", j)])

/-- The two ends of a range, read one after the other. -/
def endsIn (e : Encoding) (limits : Limits) (depth : Nat) (s t : List Char) :
    Except Stop (Json × Json) := do
  let (i, _) ← valueIn e limits depth (skip s)
  let (j, _) ← valueIn e limits depth (skip t)
  return (i, j)

/-- The two ends of a range that has to be nested one level deep. -/
def rangeIn (e : Encoding) (limits : Limits) (depth : Nat) (s t : List Char) :
    Except Stop (Json × Json) :=
  if depth = 0 then .error ⟨.tooDeep, []⟩ else endsIn e limits (depth - 1) s t

theorem Spells.begins (h : Spells e s i) : Begins s := by
  obtain ⟨c, ds, -, hskip, hc, -⟩ := h.settled
  exact ⟨c, ds, hskip, hc⟩

/-- A text in front of a sign is read as it is read alone. -/
theorem Spells.matched (h : Spells e s i) :
    ∃ r, skip r = [] ∧ ∀ limits depth {c : Char}, c = ',' ∨ c = ']' ∨ c = '}' → ∀ rest,
      Matched (fun p q => p = (i, r ++ c :: rest) ∧ q = (i, r))
        (valueIn e limits depth (skip (s ++ c :: rest))) (valueIn e limits depth (skip s)) := by
  obtain ⟨d, ds, r, hskip, -, hr, hsettled⟩ := h.settled
  refine ⟨r, hr, fun limits depth {c} hc rest => ?_⟩
  have hmatched := hsettled limits depth _ _ (ends_of_sign hc rest) ends_nil
  rw [List.append_nil, List.append_nil] at hmatched
  rw [skip_append hskip, hskip]
  exact hmatched

theorem items_matched (hs : Spells e s i) (ht : Spells e t j) (limits : Limits) (depth : Nat)
    (rest : List Char) :
    Matched (fun p q => p = ([i, j], rest) ∧ q = (i, j))
      (itemsIn e limits depth (skip (s ++ ',' :: (t ++ ']' :: rest))))
      (endsIn e limits depth s t) := by
  obtain ⟨r, hr, hstart⟩ := hs.matched
  obtain ⟨r', hr', hstop⟩ := ht.matched
  obtain ⟨c, ds, hskip, hc⟩ := ht.begins.skip_append (']' :: rest)
  rw [itemsIn_eq, endsIn]
  refine (hstart limits depth (.inl rfl) _).bind ?_
  rintro _ _ ⟨rfl, rfl⟩
  dsimp only
  rw [nextItem_eq, nextPart_comma (by decide) hr hskip hc, ← hskip]
  simp only [ok_bind, if_true]
  rw [itemsIn_eq, bind_assoc]
  refine (hstop limits depth (.inr (.inl rfl)) rest).bind ?_
  rintro _ _ ⟨rfl, rfl⟩
  dsimp only
  rw [nextItem_eq, nextPart_close (by decide) hr']
  exact .ok ⟨rfl, rfl⟩

theorem entries_matched {k k' : List Char} (hk : Names e "start" k) (hk' : Names e "end" k')
    (hs : Spells e s i) (ht : Spells e t j) (limits : Limits) (depth : Nat) (rest : List Char) :
    Matched (fun p q => p = ([("start", i), ("end", j)], rest) ∧ q = (i, j))
      (entriesIn e limits depth (skip (k ++ (s ++ ',' :: (k' ++ (t ++ '}' :: rest))))))
      (rangeIn e limits depth s t) := by
  obtain ⟨r, hr, hstart⟩ := hs.matched
  obtain ⟨r', hr', hstop⟩ := ht.matched
  obtain ⟨c, ds, hs', -⟩ := hs.begins.skip_append (',' :: (k' ++ (t ++ '}' :: rest)))
  obtain ⟨ds', hskip⟩ := hk'.skip_append (t ++ '}' :: rest)
  rw [entriesIn_eq, hk.key_eq, rangeIn]
  by_cases hzero : depth = 0
  · subst hzero
    rw [hs']
    exact .error _ _ _
  simp only [ok_bind, hzero, false_and, if_false]
  rw [endsIn]
  refine (hstart limits (depth - 1) (.inl rfl) _).bind ?_
  rintro _ _ ⟨rfl, rfl⟩
  dsimp only
  rw [nextEntry_eq, nextPart_comma (by decide) hr hskip (by decide), ← hskip]
  simp only [ok_bind, if_true]
  rw [entriesIn_eq, hk'.key_eq]
  simp only [ok_bind, hzero, false_and, if_false, bind_assoc]
  refine (hstop limits (depth - 1) (.inr (.inr rfl)) rest).bind ?_
  rintro _ _ ⟨rfl, rfl⟩
  dsimp only
  rw [nextEntry_eq, nextPart_close (by decide) hr']
  exact .ok ⟨rfl, rfl⟩

/-- **Ranges.** The text of a range is read as its ends are. -/
theorem RangeText.matched (hx : RangeText e s t x) (hs : Spells e s i) (ht : Spells e t j) :
    ∃ a, IsRange i j a ∧ ∀ limits depth rest, Matched (fun p q => p = (a, rest) ∧ q = (i, j))
      (valueIn e limits depth (skip (x ++ rest))) (rangeIn e limits depth s t) := by
  cases hx with
  | list =>
    refine ⟨_, .list, fun limits depth rest => ?_⟩
    obtain ⟨c, ds, hskip, hc⟩ := hs.begins.skip_append (',' :: (t ++ ']' :: rest))
    have hitems := items_matched hs ht limits (depth - 1) rest
    simp only [List.cons_append, List.append_assoc, List.nil_append]
    rw [skip_cons _ (by decide), valueIn_list, rangeIn, hskip]
    rw [hskip] at hitems
    dsimp only
    rw [if_neg hc]
    split
    · exact .error _ _ _
    · refine hitems.bind_left ?_
      rintro _ _ ⟨rfl, rfl⟩
      exact ⟨_, rfl, rfl, rfl⟩
  | @table k k' start stop =>
    refine ⟨_, .table, fun limits depth rest => ?_⟩
    obtain ⟨ds, hskip⟩ := start.skip_append (s ++ ',' :: (k' ++ (t ++ '}' :: rest)))
    have hentries := entries_matched start stop hs ht limits depth rest
    simp only [List.cons_append, List.append_assoc, List.nil_append]
    rw [skip_cons _ (by decide), valueIn_table, hskip]
    rw [hskip] at hentries
    dsimp only
    rw [if_neg (by decide)]
    refine hentries.bind_left ?_
    rintro _ _ ⟨rfl, rfl⟩
    exact ⟨_, rfl, rfl, rfl⟩

theorem RangeText.begins (hx : RangeText e s t x) : Begins x := by
  cases hx with
  | list => exact ⟨'[', _, skip_cons _ (by decide), by decide⟩
  | table => exact ⟨'\x7b', _, skip_cons _ (by decide), by decide⟩

/-- **Exchange.** The texts of a range can be exchanged for each other. -/
theorem RangeText.exchangeable (hx : RangeText e s t x) (hy : RangeText e s t y)
    (hs : Spells e s i) (ht : Spells e t j) :
    ∃ a b, IsRange i j a ∧ IsRange i j b ∧ ∀ limits, Exchangeable e limits a b [] x y := by
  obtain ⟨a, ha, hleft⟩ := hx.matched hs ht
  obtain ⟨b, hb, hright⟩ := hy.matched hs ht
  refine ⟨a, b, ha, hb, fun limits depth rest => ?_⟩
  have hjoin := (hleft limits depth rest).join (hright limits depth rest)
  refine hjoin.imp ?_
  rintro _ _ ⟨_, ⟨rfl, -⟩, ⟨rfl, -⟩⟩
  exact ⟨.inr .here, rfl⟩

end Diagnostics.Json
