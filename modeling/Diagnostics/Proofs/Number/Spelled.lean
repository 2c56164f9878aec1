import Diagnostics.Number.Lenient
import Diagnostics.Proofs.Json.Numbers
import Mathlib.Data.List.TakeWhile

/-!
# What spells an integer

A text spells an integer by its form (`Spells`): a minus, where there is one, and digits without a
zero in front, with single underscores between them; before that a plus and zeros, after that a
fraction of nothing but zeros, and blanks around it all. Reading a text finds the integer that it
spells, and fails where it spells none (`read_eq_ok_iff`).
-/

namespace Diagnostics.Lenient

open Json (ne_of_isDigit)

variable {limit : Nat} {c : Char} {text cs ds w u r : List Char} {negative : Bool} {n : Int}

/-! ## Strict spelling -/

/-- Digits without a zero in front. -/
structure IsCanonical (ds : List Char) : Prop where
  ne_nil : ds ≠ []
  digits : ∀ c ∈ ds, c.isDigit = true
  zero : ds.head? = some '0' → ds.length = 1

/-- A minus, where there is one. -/
def sign (negative : Bool) : List Char := if negative then ['-'] else []

/-- A canonical numeral begins with a digit, which is zero only if it stands alone. -/
theorem IsCanonical.exists_eq_cons (h : IsCanonical ds) :
    ∃ c cs, ds = c :: cs ∧ c.isDigit = true ∧ (c = '0' → cs = []) := by
  obtain ⟨hne, hdigits, hzero⟩ := h
  rcases ds with _ | ⟨c, cs⟩
  · exact absurd rfl hne
  · refine ⟨c, cs, rfl, hdigits c List.mem_cons_self, ?_⟩
    rintro rfl
    simpa using hzero rfl

/-- The sign in front of a canonical numeral is its own. -/
theorem splitMinus_sign (h : IsCanonical ds) :
    Digits.splitMinus (sign negative ++ ds) = (negative, ds) := by
  obtain ⟨c, cs, rfl, hc, -⟩ := h.exists_eq_cons
  cases negative with
  | true => rfl
  | false => exact if_neg (ne_of_isDigit hc rfl)

/-- A text is its sign and the rest. -/
theorem sign_splitMinus (text : List Char) :
    sign (Digits.splitMinus text).1 ++ (Digits.splitMinus text).2 = text := by
  cases text with
  | nil => rfl
  | cons c cs =>
    rw [Digits.splitMinus]
    split
    · next hc =>
      rw [hc]
      rfl
    · rfl

/-- An integer is spelled strictly by a sign and not too many digits. -/
theorem strict_eq_ok_iff : strict limit text = .ok n ↔
    ∃ negative ds, text = sign negative ++ ds ∧ IsCanonical ds ∧ ds.length ≤ limit ∧
      n = Digits.signed negative (Digits.value ds) := by
  constructor
  · intro h
    have htext := sign_splitMinus text
    rw [strict] at h
    generalize Digits.splitMinus text = parts at h htext
    obtain ⟨negative, body⟩ := parts
    dsimp only at h htext
    split at h
    · cases h
    · next hbody =>
      split at h
      · cases h
      · next hshort =>
        split at h
        · next hall =>
          have hrun : body.takeWhile Char.isDigit = body :=
            (List.takeWhile_prefix _).eq_of_length hall
          rw [hrun] at h hbody hshort
          obtain ⟨hne, hzero⟩ := not_or.1 hbody
          refine ⟨negative, body, htext.symm, ⟨hne, List.takeWhile_eq_self_iff.1 hrun, ?_⟩,
            Nat.not_lt.1 hshort, (Except.ok.inj h).symm⟩
          intro hhead
          have hpos := List.length_pos_iff.2 hne
          have hlength : ¬ 1 < body.length := fun hlength => hzero ⟨hhead, hlength⟩
          omega
        · cases h
  · rintro ⟨negative, ds, rfl, hds, hshort, rfl⟩
    have hhead : ¬ (ds = [] ∨ ds.head? = some '0' ∧ 1 < ds.length) := by
      rintro (hnil | ⟨hzero, hlength⟩)
      · exact hds.ne_nil hnil
      · exact absurd (hds.zero hzero) (Nat.ne_of_gt hlength)
    simp only [strict, splitMinus_sign hds, List.takeWhile_eq_self_iff.2 hds.digits, if_neg hhead,
      if_neg (Nat.not_lt.2 hshort), if_true]

/-! ## Underscores -/

/-- Whether a text is another one with single underscores between some of its characters. -/
inductive Joins : List Char → List Char → Prop
  | single {c : Char} (hc : c ≠ '_') : Joins [c] [c]
  | next {c : Char} {w u : List Char} (hc : c ≠ '_') (h : Joins w u) : Joins (c :: w) (c :: u)
  | underscore {c : Char} {w u : List Char} (hc : c ≠ '_') (h : Joins w u) :
    Joins (c :: '_' :: w) (c :: u)

/-- What may follow a character: nothing, more characters, or an underscore and more. -/
def JoinsOn (w u : List Char) : Prop :=
  w = [] ∧ u = [] ∨ Joins w u ∨ ∃ w', w = '_' :: w' ∧ Joins w' u

/-- What joins digits begins with one of them. -/
theorem joins_cons_iff (hc : c ≠ '_') : Joins (c :: w) u ↔ ∃ u', u = c :: u' ∧ JoinsOn w u' := by
  constructor
  · rintro (_ | ⟨_, h⟩ | ⟨_, h⟩)
    · exact ⟨[], rfl, .inl ⟨rfl, rfl⟩⟩
    · exact ⟨_, rfl, .inr (.inl h)⟩
    · exact ⟨_, rfl, .inr (.inr ⟨_, rfl, h⟩)⟩
  · rintro ⟨u, rfl, ⟨rfl, rfl⟩ | h | ⟨w, rfl, h⟩⟩
    · exact .single hc
    · exact .next hc h
    · exact .underscore hc h

/-- What joins digits does not begin with a low line. -/
theorem Joins.ne_underscore (h : Joins (c :: w) u) : c ≠ '_' := by
  cases h <;> assumption

/-- Joining digits gives what the grammar says, both at the beginning and after a digit. -/
theorem joined?_iff (w u : List Char) :
    (joined? false w = some u ↔ Joins w u) ∧ (joined? true w = some u ↔ JoinsOn w u) := by
  induction w generalizing u with
  | nil =>
    refine ⟨⟨nofun, nofun⟩, ?_⟩
    constructor
    · intro h
      exact .inl ⟨rfl, (Option.some.inj h).symm⟩
    · rintro (⟨-, rfl⟩ | h | ⟨w, h, -⟩)
      · rfl
      · cases h
      · cases h
  | cons c w ih =>
    by_cases hc : c = '_'
    · subst hc
      have hfalse : ¬ Joins ('_' :: w) u := fun h => h.ne_underscore rfl
      refine ⟨⟨nofun, fun h => absurd h hfalse⟩, ?_⟩
      rw [joined?, if_pos rfl, if_pos rfl, (ih u).1]
      constructor
      · exact fun h => .inr (.inr ⟨w, rfl, h⟩)
      · rintro (⟨⟨⟩, -⟩ | h | ⟨w', hw, h⟩)
        · exact absurd h hfalse
        · obtain ⟨⟩ := hw
          exact h
    · have hmap : (joined? true w).map (c :: ·) = some u ↔ Joins (c :: w) u := by
        rw [Option.map_eq_some_iff, joins_cons_iff hc]
        constructor
        · rintro ⟨u', hu', rfl⟩
          exact ⟨u', rfl, (ih u').2.1 hu'⟩
        · rintro ⟨u', rfl, hu'⟩
          exact ⟨u', (ih u').2.2 hu', rfl⟩
      have hon : JoinsOn (c :: w) u ↔ Joins (c :: w) u := by
        refine ⟨?_, fun h => .inr (.inl h)⟩
        rintro (⟨⟨⟩, -⟩ | h | ⟨w', hw, -⟩)
        · exact h
        · cases hw
          exact absurd rfl hc
      rw [joined?, joined?, if_neg hc, if_neg hc, hon]
      exact ⟨hmap, hmap⟩

/-- A numeral begins as its digits do. -/
theorem Joins.head?_eq (h : Joins w u) : w.head? = u.head? := by
  cases h <;> rfl

/-- There is nothing in a numeral but its digits and low lines. -/
theorem Joins.mem (h : Joins w u) : ∀ c ∈ w, c = '_' ∨ c ∈ u := by
  induction h with
  | single => exact fun c hc => .inr hc
  | next _ _ ih =>
    refine List.forall_mem_cons.2 ⟨.inr List.mem_cons_self, fun c hc => ?_⟩
    exact (ih c hc).imp_right (List.mem_cons_of_mem _)
  | underscore _ _ ih =>
    refine List.forall_mem_cons.2 ⟨.inr List.mem_cons_self, List.forall_mem_cons.2 ⟨.inl rfl, ?_⟩⟩
    exact fun c hc => (ih c hc).imp_right (List.mem_cons_of_mem _)

/-- A text without underscores has nothing to be joined. -/
theorem joins_self (hne : w ≠ []) (hw : ∀ c ∈ w, c ≠ '_') : Joins w w := by
  induction w with
  | nil => exact absurd rfl hne
  | cons c w ih =>
    obtain ⟨hc, hw⟩ := List.forall_mem_cons.1 hw
    rcases w with _ | ⟨d, w⟩
    · exact .single hc
    · exact .next hc (ih (List.cons_ne_nil d w) hw)

/-! ## Around the digits -/

/-- Zeros in front, among which there can be underscores. -/
structure IsZeros (zeros : List Char) : Prop where
  chars : ∀ c ∈ zeros, c = '0' ∨ c = '_'
  head : ∀ c ∈ zeros.head?, c = '0'

/-- A fraction of nothing but zeros, if there is one. -/
def IsFraction (fraction : List Char) : Prop :=
  fraction = [] ∨ ∃ zeros, fraction = '.' :: zeros ∧ zeros ≠ [] ∧ ∀ c ∈ zeros, c = '0'

/-- What is taken off as a fraction is one. -/
theorem exists_fraction (r : List Char) :
    ∃ fraction, r = withoutFraction r ++ fraction ∧ IsFraction fraction := by
  rw [withoutFraction]
  split
  · exact ⟨[], (List.append_nil r).symm, .inl rfl⟩
  · next c decimals hdrop =>
    split
    · next hzeros =>
      have hpoint := List.head?_dropWhile_not (· != '.') r
      rw [hdrop] at hpoint
      have hc : c = '.' := by simpa using hpoint
      have hr := List.takeWhile_append_dropWhile (p := (· != '.')) (l := r)
      rw [hdrop, hc] at hr
      refine ⟨'.' :: decimals, hr.symm, .inr ⟨decimals, rfl, ?_⟩⟩
      simpa using hzeros
    · exact ⟨[], (List.append_nil r).symm, .inl rfl⟩

/-- A fraction is taken off whole. -/
theorem withoutFraction_append {fraction : List Char} (hw : ∀ c ∈ w, c ≠ '.')
    (hfraction : IsFraction fraction) : withoutFraction (w ++ fraction) = w := by
  have hw' : ∀ c ∈ w, (c != '.') = true := fun c hc => bne_iff_ne.2 (hw c hc)
  rw [withoutFraction, List.dropWhile_append_of_pos hw', List.takeWhile_append_of_pos hw']
  rcases hfraction with rfl | ⟨zeros, rfl, hne, hzeros⟩
  · exact List.append_nil w
  · have hall : (!zeros.isEmpty && zeros.all (· == '0')) = true := by
      simpa [hne] using hzeros
    simp [hall]

theorem dropZeros_append {more : List Char} (hmore : ∀ c ∈ more, c = '0' ∨ c = '_')
    (r : List Char) (last : Char) :
    ∃ last', dropZeros last (more ++ r) = dropZeros last' r := by
  induction more generalizing last with
  | nil => exact ⟨last, rfl⟩
  | cons c more ih =>
    obtain ⟨hc, hmore⟩ := List.forall_mem_cons.1 hmore
    rw [List.cons_append, dropZeros, if_pos hc]
    exact ih hmore c

theorem exists_zeros_of_dropZeros {last : Char} (h : dropZeros last cs = some r)
    (hlast : last = '0' ∨ last = '_') :
    ∃ zeros, last :: cs = zeros ++ r ∧ ∀ c ∈ zeros, c = '0' ∨ c = '_' := by
  induction cs generalizing last with
  | nil =>
    obtain rfl := Option.some.inj h
    exact ⟨[], rfl, List.forall_mem_nil _⟩
  | cons c cs ih =>
    rw [dropZeros] at h
    split at h
    · next hc =>
      obtain ⟨zeros, hzeros, hchars⟩ := ih h hc
      exact ⟨last :: zeros, congrArg _ hzeros, List.forall_mem_cons.2 ⟨hlast, hchars⟩⟩
    · split at h
      · obtain rfl := Option.some.inj h
        exact ⟨[], rfl, List.forall_mem_nil _⟩
      · split at h
        · obtain rfl := Option.some.inj h
          exact ⟨[last], rfl, List.forall_mem_singleton.2 hlast⟩
        · cases h

/-- What is taken off as zeros in front is zeros. -/
theorem exists_zeros (h : withoutZeros? cs = some r) :
    ∃ zeros, cs = zeros ++ r ∧ IsZeros zeros := by
  cases cs with
  | nil => cases h
  | cons c cs =>
    rw [withoutZeros?] at h
    split at h
    · next hc =>
      obtain ⟨zeros, hzeros, hchars⟩ := exists_zeros_of_dropZeros h (.inl hc)
      refine ⟨zeros, hzeros, hchars, fun d hd => ?_⟩
      cases zeros with
      | nil => cases hd
      | cons e zeros =>
        obtain ⟨rfl, -⟩ := List.cons.inj hzeros
        obtain rfl := Option.some.inj hd
        exact hc
    · split at h
      · obtain rfl := Option.some.inj h
        exact ⟨[], rfl, List.forall_mem_nil _, nofun⟩
      · cases h

theorem isStart_iff : isStart c = true ↔ c = '-' ∨ c.isDigit = true ∧ c ≠ '0' := by
  simp [isStart]

/-- Zeros are dropped up to where a number can begin. -/
theorem dropZeros_start (last : Char) (hc : isStart c = true) :
    dropZeros last (c :: cs) = some (c :: cs) := by
  have hzero : ¬ (c = '0' ∨ c = '_') := by
    rintro (rfl | rfl) <;> cases hc
  have hpoint : c ≠ '.' := by
    rintro rfl
    cases hc
  rw [dropZeros, if_neg hzero, if_neg hpoint, if_pos hc]

theorem dropZeros_zero {fraction : List Char} (last : Char) (hfraction : IsFraction fraction) :
    dropZeros last ('0' :: fraction) = some ('0' :: fraction) := by
  rcases hfraction with rfl | ⟨zeros, rfl, -, -⟩
  · rfl
  · rfl

/-- What is left when zeros are dropped begins with a minus or a digit other than zero, or it has a
zero as its only digit. -/
theorem withoutZeros?_append {zeros fraction : List Char} (hzeros : IsZeros zeros)
    (hw : (∃ c ∈ w.head?, isStart c = true) ∨ w = ['0']) (hfraction : IsFraction fraction) :
    withoutZeros? (zeros ++ (w ++ fraction)) = some (w ++ fraction) := by
  have hdrop : ∀ last, dropZeros last (w ++ fraction) = some (w ++ fraction) := by
    intro last
    rcases hw with ⟨c, hc, hstart⟩ | rfl
    · obtain ⟨w, rfl⟩ := List.head?_eq_some_iff.1 hc
      exact dropZeros_start last hstart
    · exact dropZeros_zero last hfraction
  cases zeros with
  | nil =>
    rcases hw with ⟨c, hc, hstart⟩ | rfl
    · obtain ⟨w, rfl⟩ := List.head?_eq_some_iff.1 hc
      have hzero : c ≠ '0' := by
        rintro rfl
        cases hstart
      exact (if_neg hzero).trans (if_pos hstart)
    · exact dropZeros_zero '0' hfraction
  | cons c more =>
    obtain rfl := hzeros.head c rfl
    obtain ⟨last, hlast⟩ :=
      dropZeros_append (List.forall_mem_cons.1 hzeros.chars).2 (w ++ fraction) '0'
    exact hlast.trans (hdrop last)

/-! ## Blanks and a plus -/

/-- What is taken off as a plus is one, with no minus behind it. -/
theorem exists_plus (h : withoutPlus? text = some cs) :
    ∃ plus, text = plus ++ cs ∧ (plus = [] ∨ plus = ['+'] ∧ cs.head? ≠ some '-') := by
  cases text with
  | nil =>
    obtain rfl := Option.some.inj h
    exact ⟨[], rfl, .inl rfl⟩
  | cons c text =>
    rw [withoutPlus?] at h
    split at h
    · next hc =>
      split at h
      · cases h
      · next hminus =>
        obtain rfl := Option.some.inj h
        exact ⟨['+'], congrArg (· :: text) hc, .inr ⟨rfl, hminus⟩⟩
    · obtain rfl := Option.some.inj h
      exact ⟨[], rfl, .inl rfl⟩

/-- A plus is taken off whole. -/
theorem withoutPlus?_append {plus : List Char}
    (hplus : plus = [] ∧ cs.head? ≠ some '+' ∨ plus = ['+'] ∧ cs.head? ≠ some '-') :
    withoutPlus? (plus ++ cs) = some cs := by
  rcases hplus with ⟨rfl, hcs⟩ | ⟨rfl, hcs⟩
  · cases cs with
    | nil => rfl
    | cons c cs => exact if_neg fun hc => hcs (congrArg some hc)
  · rw [List.singleton_append, withoutPlus?, if_pos rfl, if_neg hcs]

/-- What is trimmed off is blank. -/
theorem exists_blanks (text : List Char) : ∃ before after,
    text = before ++ trimBlank text ++ after ∧ ∀ c ∈ before ++ after, isBlank c = true := by
  have hblank : ∀ cs : List Char, ∀ c ∈ cs.takeWhile isBlank, isBlank c = true :=
    fun cs => List.all_eq_true.1 List.all_takeWhile
  refine ⟨text.takeWhile isBlank, ((text.dropWhile isBlank).reverse.takeWhile isBlank).reverse, ?_,
    List.forall_mem_append.2 ⟨hblank text, fun c hc => hblank _ c (List.mem_reverse.1 hc)⟩⟩
  rw [trimBlank, List.append_assoc, ← List.reverse_append, List.takeWhile_append_dropWhile,
    List.reverse_reverse, List.takeWhile_append_dropWhile]

/-- Nothing is dropped in front of what is not blank. -/
theorem dropWhile_blank_append {before core : List Char} (hblank : ∀ c ∈ before, isBlank c = true)
    (hcore : ∀ c ∈ core.head?, isBlank c = false) :
    (before ++ core).dropWhile isBlank = core := by
  rw [List.dropWhile_append_of_pos hblank]
  cases core with
  | nil => rfl
  | cons c core => exact List.dropWhile_cons_of_neg (by simp [hcore c rfl])

/-- Blanks are trimmed off whole. -/
theorem trimBlank_append {before core after : List Char}
    (hblank : ∀ c ∈ before ++ after, isBlank c = true) (hcore : ∀ c ∈ core, isBlank c = false)
    (hne : core ≠ []) : trimBlank (before ++ core ++ after) = core := by
  obtain ⟨hbefore, hafter⟩ := List.forall_mem_append.1 hblank
  have hfirst : ∀ c ∈ (core ++ after).head?, isBlank c = false := by
    obtain ⟨c, cs, rfl⟩ := List.exists_cons_of_ne_nil hne
    rintro _ ⟨⟩
    exact hcore c List.mem_cons_self
  have hlast : ∀ c ∈ core.reverse.head?, isBlank c = false :=
    fun c hc => hcore c (List.mem_reverse.1 (List.mem_of_mem_head? hc))
  rw [trimBlank, List.append_assoc, dropWhile_blank_append hbefore hfirst, List.reverse_append,
    dropWhile_blank_append (fun c hc => hafter c (List.mem_reverse.1 hc)) hlast,
    List.reverse_reverse]

/-! ## Free spelling -/

/-- Whether a text spells an integer with at most `limit` digits: blanks, a plus, zeros, a sign and
digits with single underscores between them, a fraction of zeros, and blanks. -/
inductive Spells (limit : Nat) : List Char → Int → Prop
  | intro {before plus zeros body fraction after ds : List Char} {negative : Bool}
    (blank : ∀ c ∈ before ++ after, isBlank c = true)
    (isPlus : plus = [] ∨ plus = ['+'] ∧ (zeros ++ (body ++ fraction)).head? ≠ some '-')
    (isZeros : IsZeros zeros) (joins : Joins body (sign negative ++ ds))
    (isCanonical : IsCanonical ds) (isFraction : IsFraction fraction) (short : ds.length ≤ limit) :
    Spells limit (before ++ (plus ++ (zeros ++ (body ++ fraction))) ++ after)
      (Digits.signed negative (Digits.value ds))

/-- What is read freely is spelled so. -/
theorem spells_of_plain? (h : plain? text = some u) (hu : strict limit u = .ok n) :
    Spells limit text n := by
  obtain ⟨cs, hcs, h⟩ := Option.bind_eq_some_iff.1 h
  obtain ⟨r, hr, h⟩ := Option.bind_eq_some_iff.1 h
  obtain ⟨before, after, htext, hblank⟩ := exists_blanks text
  obtain ⟨plus, hcore, hplus⟩ := exists_plus hcs
  obtain ⟨zeros, hzeros, hiszeros⟩ := exists_zeros hr
  obtain ⟨fraction, hfraction, hisfraction⟩ := exists_fraction r
  obtain ⟨negative, ds, rfl, hds, hshort, rfl⟩ := strict_eq_ok_iff.1 hu
  rw [htext, hcore, hzeros, hfraction]
  rw [hzeros, hfraction] at hplus
  exact .intro hblank hplus hiszeros ((joined?_iff _ _).1.1 h) hds hisfraction hshort

section Form

variable {before plus zeros body fraction after : List Char}

theorem isBlank_of_isDigit (hc : c.isDigit = true) : isBlank c = false := by
  have hrange : 48 ≤ c.toNat ∧ c.toNat ≤ 57 := by
    simpa [Char.isDigit, UInt32.le_iff_toNat_le] using hc
  simp [isBlank, singleBlanks]
  omega

theorem not_isDigit_of_isBlank (hc : isBlank c = true) : c.isDigit = false := by
  refine Bool.eq_false_iff.2 fun hdigit => ?_
  rw [isBlank_of_isDigit hdigit] at hc
  cases hc

/-- The characters of a body are its sign, its digits and underscores. -/
theorem Joins.chars (h : Joins w (sign negative ++ ds)) (hds : IsCanonical ds) :
    ∀ c ∈ w, c = '_' ∨ c = '-' ∨ c.isDigit = true := by
  intro c hc
  refine (h.mem c hc).imp_right fun hc => ?_
  rcases List.mem_append.1 hc with hc | hc
  · cases negative with
    | true => exact .inl (List.mem_singleton.1 hc)
    | false => cases hc
  · exact .inr (hds.digits c hc)

/-- A body begins as an integer does. -/
theorem Joins.starts (h : Joins w (sign negative ++ ds)) (hds : IsCanonical ds) :
    (∃ c ∈ w.head?, isStart c = true) ∨ w = ['0'] := by
  have hhead := h.head?_eq
  cases negative with
  | true => exact .inl ⟨'-', hhead, rfl⟩
  | false =>
    obtain ⟨c, cs, rfl, hc, hzero⟩ := hds.exists_eq_cons
    by_cases hc0 : c = '0'
    · obtain rfl := hzero hc0
      subst hc0
      refine .inr ?_
      cases h with
      | single => rfl
      | next _ h => cases h
      | underscore _ h => cases h
    · exact .inl ⟨c, hhead, isStart_iff.2 (.inr ⟨hc, hc0⟩)⟩

/-- What stands between blanks is neither blank nor a plus, but for one in front. -/
theorem chars_of_form (hzeros : IsZeros zeros)
    (hbody : ∀ c ∈ w, c = '_' ∨ c = '-' ∨ c.isDigit = true) (hfraction : IsFraction fraction) :
    ∀ c ∈ zeros ++ (w ++ fraction), isBlank c = false ∧ c ≠ '+' := by
  have digit : ∀ {c : Char}, c.isDigit = true → isBlank c = false ∧ c ≠ '+' :=
    fun hc => ⟨isBlank_of_isDigit hc, ne_of_isDigit hc rfl⟩
  refine List.forall_mem_append.2 ⟨fun c hc => ?_, List.forall_mem_append.2 ⟨fun c hc => ?_, ?_⟩⟩
  · rcases hzeros.chars c hc with rfl | rfl
    · exact digit rfl
    · exact ⟨by decide, by decide⟩
  · rcases hbody c hc with rfl | rfl | hc
    · exact ⟨by decide, by decide⟩
    · exact ⟨by decide, by decide⟩
    · exact digit hc
  · rcases hfraction with rfl | ⟨zeros, rfl, -, hzeros⟩
    · exact List.forall_mem_nil _
    · refine List.forall_mem_cons.2 ⟨⟨by decide, by decide⟩, fun c hc => ?_⟩
      obtain rfl := hzeros c hc
      exact digit rfl

/-- What is spelled so is freed of all that its spelling may have. -/
theorem plain?_of_form (hblank : ∀ c ∈ before ++ after, isBlank c = true)
    (hplus : plus = [] ∨ plus = ['+'] ∧ (zeros ++ (body ++ fraction)).head? ≠ some '-')
    (hzeros : IsZeros zeros) (hjoins : Joins body (sign negative ++ ds)) (hds : IsCanonical ds)
    (hfraction : IsFraction fraction) :
    plain? (before ++ (plus ++ (zeros ++ (body ++ fraction))) ++ after) =
      some (sign negative ++ ds) := by
  have hbody := hjoins.chars hds
  have hchars := chars_of_form hzeros hbody hfraction
  have hne : body ≠ [] := by
    rintro rfl
    cases hjoins
  have hcore : ∀ c ∈ plus ++ (zeros ++ (body ++ fraction)), isBlank c = false := by
    refine List.forall_mem_append.2 ⟨?_, fun c hc => (hchars c hc).1⟩
    rcases hplus with rfl | ⟨rfl, -⟩
    · exact List.forall_mem_nil _
    · exact List.forall_mem_singleton.2 (by decide)
  have hplus' : plus = [] ∧ (zeros ++ (body ++ fraction)).head? ≠ some '+' ∨
      plus = ['+'] ∧ (zeros ++ (body ++ fraction)).head? ≠ some '-' :=
    hplus.imp_left fun h => ⟨h, fun hhead => (hchars _ (List.mem_of_head? hhead)).2 rfl⟩
  have hpoint : ∀ c ∈ body, c ≠ '.' := by
    intro c hc
    rcases hbody c hc with rfl | rfl | hc
    · decide
    · decide
    · exact ne_of_isDigit hc rfl
  rw [plain?, trimBlank_append hblank hcore (by simp [hne]), withoutPlus?_append hplus',
    Option.bind_some, withoutZeros?_append hzeros (hjoins.starts hds) hfraction, Option.bind_some,
    withoutFraction_append hpoint hfraction]
  exact (joined?_iff _ _).1.2 hjoins

/-- What is spelled strictly has to be freed of nothing. -/
theorem plain?_of_strict (h : strict limit text = .ok n) : plain? text = some text := by
  obtain ⟨negative, ds, rfl, hds, -, -⟩ := strict_eq_ok_iff.1 h
  have hjoins : Joins (sign negative ++ ds) (sign negative ++ ds) := by
    refine joins_self (by simp [hds.ne_nil]) (List.forall_mem_append.2 ⟨?_, fun c hc => ?_⟩)
    · cases negative <;> simp [sign]
    · exact ne_of_isDigit (hds.digits c hc) rfl
  have hform : plain? ([] ++ ([] ++ ([] ++ ((sign negative ++ ds) ++ []))) ++ []) =
      some (sign negative ++ ds) :=
    plain?_of_form (List.forall_mem_nil _) (.inl rfl) ⟨List.forall_mem_nil _, nofun⟩ hjoins hds
      (.inl rfl)
  simpa using hform

/-! ## Too many digits -/

/-- The digits in front of a text, after a minus. -/
def run (text : List Char) : List Char := (Digits.splitMinus text).2.takeWhile Char.isDigit

/-- Too many digits in front are noticed if they do not begin with a zero. -/
theorem oversized_run (h : strict limit text = .error .oversized) :
    limit < (run text).length ∧ run text ≠ [] ∧
      ((run text).head? = some '0' → (Digits.splitMinus text).2.length ≤ 1) := by
  rw [strict] at h
  rw [run]
  generalize Digits.splitMinus text = parts at h ⊢
  obtain ⟨negative, body⟩ := parts
  dsimp only at h ⊢
  split at h
  · cases h
  · next hbody =>
    obtain ⟨hne, hzero⟩ := not_or.1 hbody
    split at h
    · next hlong =>
      exact ⟨hlong, hne, fun hhead => Nat.not_lt.1 fun hlength => hzero ⟨hhead, hlength⟩⟩
    · split at h
      · cases h
      · cases h

/-- The digits in front of a text are no more than its numeral has. -/
theorem length_takeWhile_le {rest : List Char} (hrest : ∀ c ∈ rest.head?, c.isDigit = false)
    (h : JoinsOn w u) : ((w ++ rest).takeWhile Char.isDigit).length ≤ u.length := by
  have hnone : rest.takeWhile Char.isDigit = [] := by
    cases rest with
    | nil => rfl
    | cons c rest => exact List.takeWhile_cons_of_neg (by simp [hrest c rfl])
  have joined : ∀ {w u}, Joins w u → ((w ++ rest).takeWhile Char.isDigit).length ≤ u.length := by
    intro w u h
    induction h with
    | @single c hc =>
      rw [List.singleton_append, List.takeWhile_cons, hnone]
      split <;> simp
    | next hc h ih =>
      rw [List.cons_append, List.takeWhile_cons]
      split
      · simpa using ih
      · simp
    | underscore hc h ih =>
      rw [List.cons_append, List.cons_append, List.takeWhile_cons]
      split <;> simp
  rcases h with ⟨rfl, rfl⟩ | h | ⟨w, rfl, -⟩
  · rw [List.nil_append, hnone]
  · exact joined h
  · exact Nat.zero_le _

/-- A text that begins neither with a minus nor with a digit has no digits in front. -/
theorem run_eq_nil (hminus : c ≠ '-') (hdigit : c.isDigit = false) : run (c :: cs) = [] := by
  rw [run, Digits.splitMinus, if_neg hminus]
  exact List.takeWhile_cons_of_neg (by simp [hdigit])

/-- No more digits stand in front than are joined. -/
theorem length_run_le {rest : List Char} (h : Joins w (sign negative ++ ds)) (hds : IsCanonical ds)
    (hrest : ∀ c ∈ rest.head?, c.isDigit = false) : (run (w ++ rest)).length ≤ ds.length := by
  have hhead := h.head?_eq
  cases negative with
  | true =>
    obtain ⟨w, rfl⟩ := List.head?_eq_some_iff.1 hhead
    obtain ⟨u, hu, hon⟩ := (joins_cons_iff (by decide)).1 h
    obtain rfl := (List.cons.inj hu).2
    exact length_takeWhile_le hrest hon
  | false =>
    obtain ⟨c, cs, rfl, hc, -⟩ := hds.exists_eq_cons
    obtain ⟨w, rfl⟩ := List.head?_eq_some_iff.1 hhead
    rw [run, List.cons_append, Digits.splitMinus, if_neg (ne_of_isDigit hc rfl)]
    exact length_takeWhile_le hrest (.inr (.inl h))

/-- What is spelled with few digits does not have too many in front. -/
theorem not_oversized (h : Spells limit text n) : strict limit text ≠ .error .oversized := by
  intro hsize
  obtain ⟨hlong, hne, hzero⟩ := oversized_run hsize
  obtain @⟨before, plus, zeros, body, fraction, after, ds, negative, hblank, hplus, hzeros, hjoins,
    hds, hfraction, hshort⟩ := h
  obtain ⟨hbefore, hafter⟩ := List.forall_mem_append.1 hblank
  -- the text begins with its body, or else the digits in front are none or begin with a zero
  obtain rfl : before = [] := by
    rcases before with _ | ⟨c, before⟩
    · rfl
    · have hc := hbefore c List.mem_cons_self
      have hminus : c ≠ '-' := by
        rintro rfl
        cases hc
      exact absurd (run_eq_nil hminus (not_isDigit_of_isBlank hc)) hne
  obtain rfl : plus = [] := by
    rcases hplus with rfl | ⟨rfl, -⟩
    · rfl
    · exact absurd (run_eq_nil (by decide) rfl) hne
  obtain rfl : zeros = [] := by
    rcases zeros with _ | ⟨c, more⟩
    · rfl
    · obtain rfl := hzeros.head c rfl
      have hlength : ('0' :: more ++ (body ++ fraction) ++ after).length ≤ 1 := hzero rfl
      have hbody : body ≠ [] := by
        rintro rfl
        cases hjoins
      have hpos := List.length_pos_iff.2 hbody
      simp only [List.length_append, List.length_cons] at hlength
      omega
  have hrest : ∀ c ∈ (fraction ++ after).head?, c.isDigit = false := by
    rcases hfraction with rfl | ⟨zeros, rfl, -⟩
    · exact fun c hc => not_isDigit_of_isBlank (hafter c (List.mem_of_mem_head? hc))
    · rintro _ ⟨⟩
      rfl
  rw [List.nil_append, List.nil_append, List.nil_append, List.append_assoc] at hlong
  have hfew := length_run_le hjoins hds hrest
  omega

/-- What is spelled freely is spelled strictly once everything around it is taken off. -/
theorem Spells.exists_plain? (h : Spells limit text n) :
    ∃ u, plain? text = some u ∧ strict limit u = .ok n := by
  obtain ⟨hblank, hplus, hzeros, hjoins, hds, hfraction, hshort⟩ := h
  exact ⟨_, plain?_of_form hblank hplus hzeros hjoins hds hfraction,
    strict_eq_ok_iff.2 ⟨_, _, rfl, hds, hshort, rfl⟩⟩

/-- **Integers in texts.** A text is read as the integer that it spells, and as nothing if it spells
none. -/
theorem read_eq_ok_iff : read limit text = .ok n ↔ Spells limit text n := by
  constructor
  · intro h
    rw [read] at h
    rcases hstrict : strict limit text with (_ | _) | m
    · rw [hstrict] at h
      dsimp only at h
      split at h
      · next m hplain =>
        obtain ⟨u, hu, hm⟩ := Option.map_eq_some_iff.1 hplain
        exact spells_of_plain? hu (hm.trans (congrArg Except.ok (Except.ok.inj h)))
      · cases h
    · rw [hstrict] at h
      cases h
    · rw [hstrict] at h
      obtain rfl := Except.ok.inj h
      exact spells_of_plain? (plain?_of_strict hstrict) hstrict
  · intro h
    obtain ⟨u, hu, hn⟩ := h.exists_plain?
    rcases hstrict : strict limit text with (_ | _) | m
    · simp only [read, hstrict, hu, Option.map_some, hn]
    · exact absurd hstrict (not_oversized h)
    · obtain rfl := Option.some.inj ((plain?_of_strict hstrict).symm.trans hu)
      rw [read, hstrict, ← hn, hstrict]

instance (limit : Nat) (text : List Char) (n : Int) : Decidable (Spells limit text n) :=
  decidable_of_iff _ read_eq_ok_iff

example : Spells 9 "0_0-7".toList (-7) := by decide
example : ¬ Spells 9 "-0_7".toList (-7) := by decide

end Form

end Diagnostics.Lenient
