import Diagnostics.Number.Digits

/-!
# Binary floating-point numbers, kept exactly

A number of 53 significant bits is its sign, an integer mantissa and a power of two; beside the
finite numbers there are two infinities and the values that are no number at all. Nothing here uses
machine arithmetic: reading a decimal rounds an exact fraction (`ofRatio`), and comparing scales
both sides to one power of two (`order`).

A value that is no number differs from everything, itself included, when it is compared; inside a
collection, though, one and the same such value still counts as equal to itself. So each carries a
`tag` that says which one it is.
-/

namespace Diagnostics

/-- A floating-point number of 53 significant bits. A finite one is
`± mantissa * 2 ^ exponent`. -/
inductive Binary64 where
  | nan (tag : Nat)
  | infinite (negative : Bool)
  | finite (negative : Bool) (mantissa : Nat) (exponent : Int)
  deriving DecidableEq, Repr, Inhabited

namespace Binary64

/-- The exponent of the smallest positive number. -/
def leastExponent : Int := -1074

/-- The largest exponent of a finite number with a mantissa of 53 bits. -/
def greatestExponent : Int := 971

/-- The least mantissa of 53 bits. -/
def leastFull : Nat := Nat.pow 2 52

/-- The numerator and the denominator of a power; one of them is 1. -/
def power (base : Nat) (exponent : Int) : Nat × Nat :=
  (Nat.pow base exponent.toNat, Nat.pow base (-exponent).toNat)

/-- A quotient rounded to the nearest integer, a half to the even one. -/
def roundHalfEven (num den : Nat) : Nat :=
  let q := num / den
  let r := num % den
  if den < 2 * r ∨ (den = 2 * r ∧ q % 2 = 1) then q + 1 else q

/-- The power of two at which the quotient of two positive numbers has a 53-bit mantissa. -/
def scaleOf (num den : Nat) : Int :=
  let guess : Int := (Nat.log2 num : Int) - Nat.log2 den - 52
  let (up, down) := power 2 guess
  if num * down < leastFull * (den * up) then guess - 1 else guess

/-- The number nearest to a fraction, a tie going to the even mantissa; too large a fraction is
infinite. -/
def ofRatio (negative : Bool) (num den : Nat) : Binary64 :=
  if num = 0 then
    finite negative 0 leastExponent
  else
    let e := max (scaleOf num den) leastExponent
    let (up, down) := power 2 e
    let m := roundHalfEven (num * down) (den * up)
    let (m, e) := if m = 2 * leastFull then (leastFull, e + 1) else (m, e)
    if greatestExponent < e then infinite negative else finite negative m e

/-- The number nearest to `coefficient * 10 ^ exponent`. Exponents far outside the range of finite
numbers are settled without computing the power. -/
def ofDecimal (negative : Bool) (coefficient : Nat) (exponent : Int) : Binary64 :=
  let place := exponent + Digits.count coefficient
  if coefficient = 0 ∨ place < -330 then
    finite negative 0 leastExponent
  else if 310 < place then
    infinite negative
  else
    let (up, down) := power 10 exponent
    ofRatio negative (coefficient * up) down

/-- An integer as it stands, with as many bits as it needs; for comparing only. -/
def ofInt (n : Int) : Binary64 := finite (n < 0) n.natAbs 0

/-- The number nearest to an integer, unless that is infinite. -/
def nearest? (n : Int) : Option Binary64 :=
  match ofRatio (n < 0) n.natAbs 1 with
  | infinite _ => none
  | x => some x

/-- The number nearest to a difference. Infinities of one sign have none. -/
def sub : Binary64 → Binary64 → Binary64
  | nan t, _ => nan t
  | _, nan t => nan t
  | infinite s, infinite t => if s = t then nan 0 else infinite s
  | infinite s, finite .. => infinite s
  | finite .., infinite t => infinite !t
  | finite s m e, finite t n f =>
    let common := min e f
    let d := Digits.signed s (m * (power 2 (e - common)).1) -
      Digits.signed t (n * (power 2 (f - common)).1)
    let (up, down) := power 2 common
    if d = 0 then finite (s && !t) 0 leastExponent else ofRatio (d < 0) (d.natAbs * up) down

/-- How two numbers compare; `none` where one of them is no number. -/
def order : Binary64 → Binary64 → Option Ordering
  | nan _, _ => none
  | _, nan _ => none
  | infinite s, infinite t => some (compare t.toNat s.toNat)
  | infinite s, finite .. => some (if s then .lt else .gt)
  | finite .., infinite t => some (if t then .gt else .lt)
  | finite s m e, finite t n f =>
    let common := min e f
    some (compare (Digits.signed s m * (power 2 (e - common)).1)
      (Digits.signed t n * (power 2 (f - common)).1))

/-- The integer that a number equals, if there is one. -/
def toInt? : Binary64 → Option Int
  | finite s m e =>
    let (up, down) := power 2 e
    if m % down = 0 then some (Digits.signed s (m * up / down)) else none
  | _ => none

/-- Whether a number is finite. -/
def isFinite : Binary64 → Bool
  | finite .. => true
  | _ => false

theorem order_nan_left (t : Nat) (x : Binary64) : order (nan t) x = none := by
  cases x <;> rfl

theorem order_nan_right (t : Nat) (x : Binary64) : order x (nan t) = none := by
  cases x <;> rfl

theorem order_self_finite (s : Bool) (m : Nat) (e : Int) :
    order (finite s m e) (finite s m e) = some .eq := by
  simp [order]

end Binary64

end Diagnostics
