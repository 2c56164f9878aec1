import Diagnostics.Number.Digits
import Diagnostics.Text.Blank

/-!
# Integers in free spelling

An integer in strict spelling is a minus, where it is negative, and its digits without a zero in
front (`strict`). A text in free spelling may have blanks around it, a plus, zeros in front, single
underscores between its digits and a fraction of nothing but zeros; it spells what is left without
them (`plain?`). Zeros and underscores in front go together, and a minus may follow them.

The number of digits is limited for what is spelled strictly from the start. A text that has to be
freed of something first spells no integer at all when what is left is too long. It is digits that
are counted: a minus in front of as many as are allowed leaves an integer, where a JSON text with the
same characters has too long a number in it. Readers of integers have differed at this one length.
-/

namespace Diagnostics.Lenient

/-- Why a text gives no integer. -/
inductive Fault where
  | malformed
  | oversized
  deriving DecidableEq, Repr

/-- The integer that a text spells strictly with at most `limit` digits, among which its minus does
not count. Too many digits in front of the text decide before anything that follows them. -/
def strict (limit : Nat) (text : List Char) : Except Fault Int :=
  let (negative, body) := Digits.splitMinus text
  let run := body.takeWhile Char.isDigit
  if run = [] ∨ (run.head? = some '0' ∧ 1 < body.length) then .error .malformed
  else if limit < run.length then .error .oversized
  else if run.length = body.length then .ok (Digits.signed negative (Digits.value run))
  else .error .malformed

/-! ## What a text is freed of -/

/-- A text without a plus in front, which no minus may follow. -/
def withoutPlus? : List Char → Option (List Char)
  | [] => some []
  | c :: cs =>
    if c = '+' then if cs.head? = some '-' then none else some cs
    else some (c :: cs)

/-- Whether a number can begin with a character, when zeros do not count. -/
def isStart (c : Char) : Bool := c == '-' || (c.isDigit && c != '0')

/-- A text without zeros and underscores in front. `last` is the one dropped last, which is kept
when the text ends there or a point follows. -/
def dropZeros (last : Char) : List Char → Option (List Char)
  | [] => some [last]
  | c :: cs =>
    if c = '0' ∨ c = '_' then dropZeros c cs
    else if c = '.' then some (last :: c :: cs)
    else if isStart c then some (c :: cs)
    else none

/-- A text from its first significant character on; zeros and underscores in front of it have to
begin with a zero. -/
def withoutZeros? : List Char → Option (List Char)
  | [] => none
  | c :: cs =>
    if c = '0' then dropZeros c cs else if isStart c then some (c :: cs) else none

/-- A text without a fraction, if the fraction is made of zeros. -/
def withoutFraction (cs : List Char) : List Char :=
  match cs.dropWhile (· != '.') with
  | [] => cs
  | _ :: decimals =>
    if !decimals.isEmpty && decimals.all (· == '0') then cs.takeWhile (· != '.') else cs

/-- A text without its underscores, each of which has to stand alone between other characters.
`after` says whether the character before was no underscore. -/
def joined? : (after : Bool) → List Char → Option (List Char)
  | after, [] => if after then some [] else none
  | after, c :: cs =>
    if c = '_' then
      if after then joined? false cs else none
    else
      (joined? true cs).map (c :: ·)

/-- A text freed of all that its spelling may have. -/
def plain? (text : List Char) : Option (List Char) :=
  (withoutPlus? (trimBlank text)).bind fun cs =>
    (withoutZeros? cs).bind fun cs => joined? false (withoutFraction cs)

/-- The integer that a text spells, with at most `limit` digits. -/
def read (limit : Nat) (text : List Char) : Except Fault Int :=
  match strict limit text with
  | .ok n => .ok n
  | .error .oversized => .error .oversized
  | .error .malformed =>
    match (plain? text).map (strict limit) with
    | some (.ok n) => .ok n
    | _ => .error .malformed

example : read 9 "  +1_000.00\n".toList = .ok 1000 := by rfl
example : read 9 "0_0-7".toList = .ok (-7) := by rfl
example : read 9 "-007".toList = .error .malformed := by rfl
example : read 9 "1__0".toList = .error .malformed := by rfl
example : read 3 "-123".toList = .ok (-123) := by rfl
example : read 3 "-1234.5".toList = .error .oversized := by rfl
example : read 3 "+1234".toList = .error .malformed := by rfl

end Diagnostics.Lenient
