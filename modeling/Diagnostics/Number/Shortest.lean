import Diagnostics.Number.Binary64

/-!
# The shortest decimal that reads back

A floating-point number is written with the fewest digits that read back as it, and of those
decimals with the one nearest to it. Every real number of an interval around a floating-point
number reads back as that number (`Interval`); `shortest` looks on ever finer decimal grids for one
of the number's two neighbours that lies inside.

Where the decimal point goes, and how an exponent is spelled, is left to a `Layout`.
-/

namespace Diagnostics.Shortest

open Binary64 (power)

/-- The real numbers that read back as `mantissa * 2 ^ exponent`, in quarters of the last place.
Below a power of two the neighbours lie closer together. The ends belong to the interval when the
mantissa is even. -/
structure Interval where
  low : Nat
  centre : Nat
  high : Nat
  closed : Bool

/-- The interval around a positive number. -/
def Interval.around (mantissa : Nat) (exponent : Int) : Interval where
  low := 4 * mantissa -
    (if mantissa = Binary64.leastFull ∧ Binary64.leastExponent < exponent then 1 else 2)
  centre := 4 * mantissa
  high := 4 * mantissa + 2
  closed := mantissa % 2 == 0

/-- Whether `c * grid` lies in the interval, whose numbers count the unit `quarter`. -/
def Interval.holds (i : Interval) (quarter grid c : Nat) : Bool :=
  if i.closed then
    decide (i.low * quarter ≤ c * grid) && decide (c * grid ≤ i.high * quarter)
  else
    decide (i.low * quarter < c * grid) && decide (c * grid < i.high * quarter)

/-- The neighbour of the centre on a decimal grid that lies in the interval: of two the nearer one,
of two equally near ones the even one. -/
def Interval.neighbour? (i : Interval) (quarter grid : Nat) : Option Nat :=
  let below := i.centre * quarter / grid
  let above := below + 1
  match i.holds quarter grid below, i.holds quarter grid above with
  | true, true =>
    let left := i.centre * quarter - below * grid
    let right := above * grid - i.centre * quarter
    if left < right ∨ (left = right ∧ below % 2 = 0) then some below else some above
  | true, false => some below
  | false, true => some above
  | false, false => none

/-- The power of ten that the first digit of a positive fraction stands before: the fraction is
below `10 ^ place` and not below `10 ^ (place - 1)`. -/
def place (num den : Nat) : Int := (Digits.count (num * Nat.pow 10 400 / den) : Int) - 400

/-- The shortest decimal of a positive number: its digits, and the power of ten of the first. -/
def shortest (mantissa : Nat) (exponent : Int) : List Char × Int :=
  let i := Interval.around mantissa exponent
  let (up, down) := power 2 (exponent - 2)
  let first := place (i.centre * up) down
  let onGrid (n : Nat) : Option (Nat × Int) :=
    let g := first - n
    let (tens, tenths) := power 10 g
    (i.neighbour? (up * tenths) (tens * down)).map (·, g)
  match (List.range' 1 17).findSome? onGrid with
  | some (c, g) => (Digits.trimEnd (Digits.digits c), g + Digits.count c - 1)
  | none => (['0'], 0)

/-- How a decimal is laid out: between which powers of ten of the first digit the point is placed
by position, and how many digits an exponent has at least. -/
structure Layout where
  leastPositional : Int
  greatestPositional : Int
  exponentWidth : Nat

/-- Zeros in front of digits up to a width. -/
def padLeft (width : Nat) (ds : List Char) : List Char :=
  List.replicate (width - ds.length) '0' ++ ds

/-- The text of a decimal whose first digit stands for the power `top` of ten. -/
def Layout.arrange (l : Layout) (ds : List Char) (top : Int) : List Char :=
  if l.leastPositional ≤ top ∧ top ≤ l.greatestPositional then
    if top < 0 then
      '0' :: '.' :: (List.replicate (-top - 1).toNat '0' ++ ds)
    else
      let whole := top.toNat + 1
      if ds.length ≤ whole then
        ds ++ List.replicate (whole - ds.length) '0' ++ ['.', '0']
      else
        ds.take whole ++ '.' :: ds.drop whole
  else
    let fraction := ds.drop 1
    ds.take 1 ++ (if fraction.isEmpty then [] else '.' :: fraction) ++
      'e' :: (if top < 0 then '-' else '+') ::
        padLeft l.exponentWidth (Digits.digits top.natAbs)

/-- The text of a finite number. -/
def Layout.finite (l : Layout) (negative : Bool) (mantissa : Nat) (exponent : Int) : List Char :=
  let body :=
    if mantissa = 0 then ['0', '.', '0']
    else
      let (ds, top) := shortest mantissa exponent
      l.arrange ds top
  if negative then '-' :: body else body

/-- The text of any number: `nan` and `inf` are written as such. -/
def Layout.text (l : Layout) : Binary64 → List Char
  | .nan _ => ['n', 'a', 'n']
  | .infinite negative => if negative then ['-', 'i', 'n', 'f'] else ['i', 'n', 'f']
  | .finite negative mantissa exponent => l.finite negative mantissa exponent

end Diagnostics.Shortest
