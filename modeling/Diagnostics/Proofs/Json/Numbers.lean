import Diagnostics.Json.Reader

/-!
# Integers are read as they were written

An integer is written as a minus, where it is negative, and its digits without a zero in front. It
is read back from there (`scalar_integer`) if it has no more characters than allowed and what follows
does not go on as a number (`Ends`).
-/

namespace Diagnostics

namespace Digits

theorem exists_digits_eq_cons (n : Nat) : ∃ c cs, digits n = c :: cs ∧ c.isDigit = true := by
  rcases h : digits n with _ | ⟨c, cs⟩
  · exact absurd h (digits_ne_nil n)
  · exact ⟨c, cs, rfl, isDigit_of_mem_digits (n := n) (by rw [h]; exact List.mem_cons_self)⟩

/-- The text of an integer begins with a minus or a digit. -/
theorem exists_text_eq_cons (n : Int) :
    ∃ c cs, text n = c :: cs ∧ (c = '-' ∨ c.isDigit = true) := by
  rw [text]
  split
  · exact ⟨'-', _, rfl, .inl rfl⟩
  · obtain ⟨c, cs, hds, hc⟩ := exists_digits_eq_cons n.natAbs
    exact ⟨c, cs, hds, .inr hc⟩

/-- The digits of a positive number do not begin with a zero. -/
theorem head?_digits_ne_zero {n : Nat} (h : 0 < n) : (digits n).head? ≠ some '0' := by
  induction n using Nat.strongRecOn with
  | _ n ih =>
    rcases Nat.lt_or_ge n 10 with hn | hn
    · rw [digits, Nat.toDigits_of_lt_base hn]
      simp only [List.head?_cons, ne_eq, Option.some.injEq, Nat.digitChar_eq_zero]
      omega
    · have ih := ih (n / 10) (by omega) (by omega)
      obtain ⟨c, cs, hds, -⟩ := exists_digits_eq_cons (n / 10)
      rw [digits] at hds ih
      rw [digits, Nat.toDigits_of_base_le (by decide) hn, hds]
      rwa [hds] at ih

theorem signed_natAbs (n : Int) : signed (decide (n < 0)) n.natAbs = n := by
  by_cases h : n < 0
  · simp only [signed, h, decide_true, if_true]; omega
  · simp only [signed, h, decide_false, Bool.false_eq_true, if_false]; omega

end Digits

namespace Json

theorem ne_of_isDigit {c d : Char} (hc : c.isDigit = true) (hd : d.isDigit = false) : c ≠ d := by
  rintro rfl
  rw [hc] at hd
  cases hd

/-- What follows does not go on as a number. -/
def Ends (rest : List Char) : Prop :=
  ∀ c ∈ rest.head?, c.isDigit = false ∧ c ≠ '.' ∧ c ≠ 'e' ∧ c ≠ 'E'

theorem ends_nil : Ends [] := by
  intro c hc
  cases hc

theorem ends_cons {c : Char} (rest : List Char)
    (h : c.isDigit = false ∧ c ≠ '.' ∧ c ≠ 'e' ∧ c ≠ 'E') : Ends (c :: rest) := by
  intro d hd
  obtain rfl := Option.some.inj hd
  exact h

/-- All digits in front are taken, and nothing else. -/
theorem someDigits_append {ds rest : List Char} (hne : ds ≠ [])
    (hds : ∀ c ∈ ds, c.isDigit = true) (hrest : Ends rest) :
    someDigits (ds ++ rest) = .ok (ds, rest) := by
  have hstop : rest.takeWhile Char.isDigit = [] ∧ rest.dropWhile Char.isDigit = rest := by
    rcases rest with _ | ⟨c, cs⟩
    · exact ⟨rfl, rfl⟩
    · have hc := (hrest c rfl).1
      simp [hc]
  rcases ds with _ | ⟨d, ds⟩
  · exact absurd rfl hne
  · rw [List.cons_append, someDigits, if_pos (hds d List.mem_cons_self), ← List.cons_append,
      List.takeWhile_append_of_pos hds, List.dropWhile_append_of_pos hds, hstop.1, hstop.2,
      List.append_nil]

theorem fraction_ends {rest : List Char} (h : Ends rest) : fraction rest = .ok ([], rest) := by
  rcases rest with _ | ⟨c, cs⟩
  · rfl
  · rw [fraction, if_neg (h c rfl).2.1]

theorem exponent?_ends {rest : List Char} (h : Ends rest) : exponent? rest = .ok (none, rest) := by
  rcases rest with _ | ⟨c, cs⟩
  · rfl
  · obtain ⟨-, -, he, hE⟩ := h c rfl
    rw [exponent?, if_neg (by simp [he, hE])]

/-- A zero in front is refused, unless it is the only digit; digits never have one. -/
theorem not_zero_in_front (n : Nat) :
    ¬ (1 < (Digits.digits n).length ∧ (Digits.digits n).head? = some '0') := by
  rintro ⟨hlen, hhead⟩
  rcases Nat.eq_zero_or_pos n with rfl | hn
  · exact absurd hlen (by decide)
  · exact Digits.head?_digits_ne_zero hn hhead

/-- The digits of a number are read as the number. -/
theorem magnitude_digits {limits : Limits} (negative : Bool) {n : Nat} {rest : List Char}
    (hfit : Digits.count n + negative.toNat ≤ limits.characters) (hrest : Ends rest) :
    magnitude limits negative (Digits.digits n ++ rest) =
      .ok (.int (Digits.signed negative n), rest) := by
  have hsome := someDigits_append (Digits.digits_ne_nil n)
    (fun _ => Digits.isDigit_of_mem_digits) hrest
  simp only [magnitude, hsome, bind, Except.bind, if_neg (not_zero_in_front n),
    if_neg (Nat.not_lt.2 hfit : ¬ limits.characters < (Digits.digits n).length + negative.toNat),
    fraction_ends hrest, exponent?_ends hrest, Digits.value_digits]
  rfl

/-- Too many digits are refused. -/
theorem magnitude_long {limits : Limits} (negative : Bool) {n : Nat} {rest : List Char}
    (hlong : limits.characters < Digits.count n + negative.toNat) (hrest : Ends rest) :
    magnitude limits negative (Digits.digits n ++ rest) = .error ⟨.numberTooLong,
      (Digits.digits n ++ rest).drop (limits.characters + 1 - negative.toNat)⟩ := by
  have hsome := someDigits_append (Digits.digits_ne_nil n)
    (fun _ => Digits.isDigit_of_mem_digits) hrest
  have hlength : limits.characters < (Digits.digits n).length + negative.toNat := hlong
  simp only [magnitude, hsome, bind, Except.bind, if_neg (not_zero_in_front n), if_pos hlength]
  rfl

/-- A minus is passed over; without one, the first character tells that a number follows. -/
theorem scalar_text (e : Encoding) (limits : Limits) (n : Int) (rest : List Char) :
    scalar e limits (Digits.text n ++ rest) =
      magnitude limits (decide (n < 0)) (Digits.digits n.natAbs ++ rest) := by
  obtain ⟨c, cs, hds, hc⟩ := Digits.exists_digits_eq_cons n.natAbs
  have hne : ∀ {d : Char}, d.isDigit = false → c ≠ d := ne_of_isDigit hc
  by_cases h : n < 0
  · rw [Digits.text, if_pos h, hds, List.cons_append, List.cons_append]
    simp only [scalar, Char.reduceEq, if_false, if_true, afterMinus, if_neg (hne (d := 'I') rfl),
      h, decide_true]
  · rw [Digits.text, if_neg h, hds, List.cons_append]
    simp only [scalar, if_neg (hne (d := '"') rfl), if_neg (hne (d := 't') rfl),
      if_neg (hne (d := 'f') rfl), if_neg (hne (d := 'n') rfl), if_neg (hne (d := 'N') rfl),
      if_neg (hne (d := 'I') rfl), if_neg (hne (d := '-') rfl), hc, if_true, h, decide_false]

/-- **Integers.** An integer is read as it was written. -/
theorem scalar_integer {e : Encoding} {limits : Limits} {n : Int} {rest : List Char}
    (hfit : (Digits.text n).length ≤ limits.characters) (hrest : Ends rest) :
    scalar e limits (Digits.text n ++ rest) = .ok (.int n, rest) := by
  rw [Digits.length_text] at hfit
  rw [scalar_text, magnitude_digits _ hfit hrest, Digits.signed_natAbs]

/-- An integer with more characters than allowed is refused behind those that are allowed and one
more. -/
theorem scalar_integer_long {e : Encoding} {limits : Limits} {n : Int} {rest : List Char}
    (hlong : limits.characters < (Digits.text n).length) (hrest : Ends rest) :
    scalar e limits (Digits.text n ++ rest) =
      .error ⟨.numberTooLong, (Digits.text n ++ rest).drop (limits.characters + 1)⟩ := by
  rw [Digits.length_text] at hlong
  rw [scalar_text, magnitude_long _ hlong hrest, Digits.text]
  by_cases h : n < 0
  · simp [h]
  · simp [h]

end Json

end Diagnostics
