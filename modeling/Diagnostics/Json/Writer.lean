import Diagnostics.Json.Basic
import Diagnostics.Number.Shortest
import Diagnostics.Text.Quoted

/-!
# Writing JSON

JSON is written on one line or with each item and entry on a line of its own. What may differ
between two writers is gathered in a `Layout`. Whatever the layout, quotes, backslashes and control
characters inside a text are escaped, so a text written on one line stays on it.
-/

namespace Diagnostics.Json

/-- How JSON is laid out. -/
structure Layout where
  /-- How far items are indented; without it all stands on one line. -/
  indent? : Option Nat
  /-- Whether on one line a blank follows commas and colons. -/
  spaced : Bool
  /-- Whether only ASCII is written as it is. -/
  ascii : Bool
  /-- How numbers with a point are written. -/
  numbers : Shortest.Layout

/-- An escape by code. -/
def unicode (n : Nat) : List Char := '\\' :: 'u' :: Quoted.hex 4 n

/-- The escape of a character that is not ASCII; one that has no code of four digits is written as
a pair. -/
def unicodePair (n : Nat) : List Char :=
  if n < 0x10000 then unicode n
  else unicode (0xd800 + (n - 0x10000) / 0x400) ++ unicode (0xdc00 + (n - 0x10000) % 0x400)

/-- One character of a text. -/
def escaped (ascii : Bool) (c : Char) : List Char :=
  if c = '"' then ['\\', '"']
  else if c = '\\' then ['\\', '\\']
  else if c = '\n' then ['\\', 'n']
  else if c = '\r' then ['\\', 'r']
  else if c = '\t' then ['\\', 't']
  else if c = '\x08' then ['\\', 'b']
  else if c = '\x0c' then ['\\', 'f']
  else if c.toNat < 0x20 then unicode c.toNat
  else if ascii && decide (0x7e < c.toNat) then unicodePair c.toNat
  else [c]

namespace Layout

/-- A text between quotes. -/
def text (l : Layout) (s : String) : List Char :=
  '"' :: (s.toList.flatMap (escaped l.ascii) ++ ['"'])

/-- The start of a new line at some depth, where there are lines. -/
def newline (l : Layout) (depth : Nat) : List Char :=
  match l.indent? with
  | none => []
  | some n => '\n' :: List.replicate (n * depth) ' '

/-- What stands between two items at some depth. -/
def comma (l : Layout) (depth : Nat) : List Char :=
  match l.indent? with
  | none => if l.spaced then [',', ' '] else [',']
  | some _ => ',' :: l.newline depth

/-- What stands between a key and its value. -/
def colon (l : Layout) : List Char :=
  if l.spaced || l.indent?.isSome then [':', ' '] else [':']

mutual

/-- The text of a value at some depth; its own items are one step deeper. -/
def write (l : Layout) (depth : Nat) : Json → List Char
  | null => "null".toList
  | bool b => (if b then "true" else "false").toList
  | int n => Digits.text n
  | real x => l.numbers.text x
  | .text s => l.text s
  | array [] => ['[', ']']
  | array (j :: js) =>
    '[' :: (l.newline (depth + 1) ++ write l (depth + 1) j ++ writeMore l (depth + 1) js ++
      l.newline depth ++ [']'])
  | object [] => ['{', '}']
  | object ((k, j) :: es) =>
    '{' :: (l.newline (depth + 1) ++ l.text k ++ l.colon ++ write l (depth + 1) j ++
      writeEntries l (depth + 1) es ++ l.newline depth ++ ['}'])

/-- The items after the first, which are at some depth. -/
def writeMore (l : Layout) (depth : Nat) : List Json → List Char
  | [] => []
  | j :: js => l.comma depth ++ write l depth j ++ writeMore l depth js

/-- The entries after the first, which are at some depth. -/
def writeEntries (l : Layout) (depth : Nat) : List (String × Json) → List Char
  | [] => []
  | (k, j) :: es =>
    l.comma depth ++ l.text k ++ l.colon ++ write l depth j ++ writeEntries l depth es

end

end Layout

/-- Whether an integer has no more digits than allowed. -/
def hasFewDigits (limit : Nat) (n : Int) : Bool := decide (Digits.count n.natAbs ≤ limit)

/-- Whether the text of an integer, with its minus, has no more characters than allowed. -/
def isShort (limit : Nat) (n : Int) : Bool := decide ((Digits.text n).length ≤ limit)

mutual

/-- Whether all integers are of some kind. -/
def integersFit (fits : Int → Bool) : Json → Bool
  | int n => fits n
  | array items => allFit fits items
  | object entries => entriesFit fits entries
  | _ => true

/-- Whether all integers among items are of some kind. -/
def allFit (fits : Int → Bool) : List Json → Bool
  | [] => true
  | j :: js => integersFit fits j && allFit fits js

/-- Whether all integers among entries are of some kind. -/
def entriesFit (fits : Int → Bool) : List (String × Json) → Bool
  | [] => true
  | (_, j) :: es => integersFit fits j && entriesFit fits es

end

/-- The text of a value. -/
def render (l : Layout) (j : Json) : String := String.ofList (l.write 0 j)

end Diagnostics.Json
