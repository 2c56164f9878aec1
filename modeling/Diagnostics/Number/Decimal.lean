import Diagnostics.Number.Binary64
import Diagnostics.Text.Blank
import Diagnostics.Text.DecimalDigit

/-!
# Decimals as text

A decimal is spelled with digits, a point among or beside them, and an exponent, of which only one
digit is indispensable; single underscores may stand between digits. The words for infinity and
for what is no number are read in any case of letters, and digits in any script.
-/

namespace Diagnostics.Decimal

/-- A text without the underscores between two digits; other underscores stay. -/
def joinDigits : (after : Bool) → List Char → List Char
  | _, [] => []
  | after, '_' :: c :: cs =>
    if after && c.isDigit then c :: joinDigits true cs else '_' :: joinDigits false (c :: cs)
  | _, c :: cs => c :: joinDigits c.isDigit cs

/-- An exponent after its letter; there has to be a digit. -/
def exponent? (cs : List Char) : Option Int :=
  let (negative, ds) := Digits.splitSign cs
  if !ds.isEmpty && ds.all Char.isDigit then some (Digits.signed negative (Digits.value ds))
  else none

/-- A number without sign. -/
def magnitude? (negative : Bool) (cs : List Char) : Option Binary64 :=
  let whole := cs.takeWhile Char.isDigit
  let (decimals, rest) :=
    match cs.dropWhile Char.isDigit with
    | '.' :: rest => (rest.takeWhile Char.isDigit, rest.dropWhile Char.isDigit)
    | rest => ([], rest)
  let coefficient := whole ++ decimals
  let number (e : Int) :=
    Binary64.ofDecimal negative (Digits.value coefficient) (e - decimals.length)
  if coefficient.isEmpty then none
  else
    match rest with
    | [] => some (number 0)
    | c :: rest => if c = 'e' ∨ c = 'E' then (exponent? rest).map number else none

/-- A number after its sign, or one of the words. -/
def unsigned? (negative : Bool) (cs : List Char) : Option Binary64 :=
  let word := String.ofList (cs.map Char.toLower)
  if word = "inf" ∨ word = "infinity" then some (.infinite negative)
  else if word = "nan" then some (.nan 0)
  else magnitude? negative (joinDigits false cs)

/-- The number that a text spells. -/
def read? (text : List Char) : Option Binary64 :=
  let (negative, cs) := Digits.splitSign ((trimBlank text).map DecimalDigit.toAscii)
  unsigned? negative cs

example : read? "1e-400".toList = some (.finite false 0 Binary64.leastExponent) := by decide +kernel
example : read? " -Infinity".toList = some (.infinite true) := by decide +kernel
example : read? "1_0.5".toList = read? "10.50".toList := by decide +kernel
example : read? "٣.5".toList = read? "3.5".toList := by decide +kernel
example : read? "1e".toList = none := by decide +kernel

end Diagnostics.Decimal
