/-!
# Decimal digits

Natural numbers and lists of decimal digits. `value (digits n) = n`, and every written digit is one
of the ten characters `0` to `9`.
-/

namespace Diagnostics.Digits

/-- The number that a digit character stands for. -/
def weight (c : Char) : Nat := c.toNat - '0'.toNat

/-- The number that a list of digits stands for, the highest digit first. -/
def value (ds : List Char) : Nat := ds.foldl (fun n c => 10 * n + weight c) 0

/-- The digits of a number, the highest first; zero is one digit. -/
def digits (n : Nat) : List Char := Nat.toDigits 10 n

/-- How many digits a number has. -/
def count (n : Nat) : Nat := (digits n).length

/-- The digits without the zeros at their end. -/
def trimEnd (ds : List Char) : List Char := (ds.reverse.dropWhile (· == '0')).reverse

/-- The decimal text of an integer. -/
def text (n : Int) : List Char :=
  if n < 0 then '-' :: digits n.natAbs else digits n.natAbs

/-- Whether a text starts with a minus, and what follows its sign. -/
def splitSign : List Char → Bool × List Char
  | [] => (false, [])
  | c :: cs => if c = '-' then (true, cs) else if c = '+' then (false, cs) else (false, c :: cs)

/-- Whether a text starts with a minus, and what follows it. -/
def splitMinus : List Char → Bool × List Char
  | [] => (false, [])
  | c :: cs => if c = '-' then (true, cs) else (false, c :: cs)

/-- An integer from its sign and its size. -/
def signed (negative : Bool) (n : Nat) : Int := if negative then -n else n

@[simp] theorem value_nil : value [] = 0 := rfl

theorem value_append_singleton (ds : List Char) (c : Char) :
    value (ds ++ [c]) = 10 * value ds + weight c := by simp [value]

/-- Reading the digits of a number gives the number. -/
@[simp] theorem value_digits (n : Nat) : value (digits n) = n := by
  have h : Nat.ofDigitChars 10 (Nat.toDigits 10 n) 0 = n := Nat.ofDigitChars_ten_toDigits
  rw [Nat.ofDigitChars_eq_foldl] at h
  exact h

theorem digits_ne_nil (n : Nat) : digits n ≠ [] := Nat.toDigits_ne_nil

theorem isDigit_of_mem_digits {n : Nat} {c : Char} (h : c ∈ digits n) : c.isDigit = true :=
  Nat.isDigit_of_mem_toDigits (by decide) (by decide) h

/-- A minus takes one character. -/
theorem length_text (n : Int) : (text n).length = count n.natAbs + (decide (n < 0)).toNat := by
  rw [text]
  split
  · next h => simp [count, h]
  · next h => simp [count, h]

end Diagnostics.Digits
