import Diagnostics.Data
import Diagnostics.Failure
import Diagnostics.Number.Shortest
import Diagnostics.Text.Quoted

/-!
# The literal form of data

Data as a line of text that shows its structure: brackets around collections, quotes around texts,
fields with their names. It fails for one reason only: an integer has too many digits.
-/

namespace Diagnostics.Data

/-- Numbers in literals: positions from the fourth place after the point to the sixteenth before
it, and at least two digits of an exponent. -/
def literalLayout : Shortest.Layout := ⟨-4, 15, 2⟩

/-- The digits of an integer, if there are not too many. -/
def integerText (n : Int) : Except Failure (List Char) :=
  if Digits.count n.natAbs ≤ digitLimit then .ok (Digits.text n) else .error .integerTooLong

/-- Texts in a row, with a separator between neighbours. -/
def join (separator : List Char) : List (List Char) → List Char
  | [] => []
  | [t] => t
  | t :: ts => t ++ separator ++ join separator ts

/-- Texts in a row, separated by commas. -/
def commas : List (List Char) → List Char := join [',', ' ']

/-- A name in front of a value. -/
def named (name : String) (value : List Char) : List Char := name.toList ++ '=' :: value

/-- A name in front of values in parentheses. -/
def call (name : String) (arguments : List (List Char)) : List Char :=
  name.toList ++ '(' :: (commas arguments ++ [')'])

/-- A member of an enumeration, with its value. -/
def member (enumeration name word : String) : List Char :=
  '<' :: (enumeration.toList ++ '.' :: (name.toList ++ ':' :: ' ' :: (Quoted.text word ++ ['>'])))

/-- The integers of a range; a step of one goes without saying. -/
def rangeText (start stop step : Int) : Except Failure (List Char) := do
  let a ← integerText start
  let b ← integerText stop
  if step = 1 then
    return call "range" [a, b]
  else
    return call "range" [a, b, ← integerText step]

mutual

/-- The literal form of data. -/
def literal : Data → Except Failure (List Char)
  | none => .ok "None".toList
  | bool b => .ok (if b then "True" else "False").toList
  | int n => integerText n
  | real x => .ok (literalLayout.text x)
  | text s => .ok (Quoted.text s)
  | bytes bs => .ok (Quoted.bytes bs)
  | severity s => .ok (member "Severity" s.name s.word)
  | style s => .ok (member "LabelStyle" s.name s.word)
  | list items => do return '[' :: (commas (← literals items) ++ [']'])
  | tuple items => do
    let ts ← literals items
    return '(' :: (commas ts ++ (if ts.length = 1 then [',', ')'] else [')']))
  | table entries => do return '{' :: (commas (← entryLiterals entries) ++ ['}'])
  | set items => do
    let ts ← literals items
    return if ts.isEmpty then "set()".toList else '{' :: (commas ts ++ ['}'])
  | iterator _ => .ok "<list_iterator object>".toList
  | range start stop step => rangeText start stop step
  | slice start stop step => do
    return call "slice" [← literal start, ← literal stop, ← literal step]
  | buffer bs => .ok (call "bytearray" [Quoted.buffer bs])
  | byteRange start stop => do
    return call "ByteRange" [named "start" (← literal start), named "end" (← literal stop)]
  | label how file region message => do
    return call "Label" [named "style" (← literal how), named "file_id" (← literal file),
      named "range" (← literal region), named "message" (← literal message)]
  | diagnostic level code message labels notes => do
    return call "Diagnostic" [named "severity" (← literal level), named "code" (← literal code),
      named "message" (← literal message), named "labels" (← literal labels),
      named "notes" (← literal notes)]

/-- The literal forms of items in order. -/
def literals : List Data → Except Failure (List (List Char))
  | [] => .ok []
  | d :: ds => do return (← literal d) :: (← literals ds)

/-- The literal forms of the entries of a table, each a key with its value. -/
def entryLiterals : List (String × Data) → Except Failure (List (List Char))
  | [] => .ok []
  | (k, d) :: es => do
    return (Quoted.text k ++ ':' :: ' ' :: (← literal d)) :: (← entryLiterals es)

end

end Diagnostics.Data
