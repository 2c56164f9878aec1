import Diagnostics.Json.Basic
import Diagnostics.Json.Fault
import Diagnostics.Number.Digits

/-!
# Reading JSON

The reader takes strict JSON, and beside it the words `NaN`, `Infinity` and `-Infinity`, from a text
in characters or in bytes (`Encoding`). It goes through the text once from left to right. Each part
of it gives what it has read together with the rest of the text, or stops with a fault and the rest
in front of which it stopped (`Stop`), so that the place of a fault follows from how much is left.

Of entries with one key the last value counts. Collections that hold something may be nested only so
deep, and a number may have only so many characters before its point, of which a minus is one
(`Limits`).
-/

namespace Diagnostics.Json

/-- How deep a text may be nested, and how many characters a number may have before its point, with
its minus. -/
structure Limits where
  depth : Nat
  characters : Nat
  deriving DecidableEq, Repr

/-- The limits for texts from outside. -/
def Limits.standard : Limits := ⟨200, 4300⟩

/-- A fault, and what was left of the text in front of it. -/
structure Stop where
  fault : Fault
  rest : List Char
  deriving DecidableEq, Repr

/-- Whether a character may stand between the parts of a text. -/
def isSpace (c : Char) : Bool := c == ' ' || c == '\t' || c == '\n' || c == '\r'

/-- A text without the space in front. -/
def skip (cs : List Char) : List Char := cs.dropWhile isSpace

/-- The rest of a text after a word. -/
def word : (expected : List Char) → List Char → Except Stop (List Char)
  | [], cs => .ok cs
  | _ :: _, [] => .error ⟨.endInValue, []⟩
  | w :: ws, c :: cs => if c = w then word ws cs else .error ⟨.expectedIdent, c :: cs⟩

/-! ## Numbers -/

/-- The digits in front of a text; there has to be one. -/
def someDigits : List Char → Except Stop (List Char × List Char)
  | [] => .error ⟨.endInValue, []⟩
  | c :: cs =>
    if c.isDigit then .ok ((c :: cs).takeWhile Char.isDigit, (c :: cs).dropWhile Char.isDigit)
    else .error ⟨.invalidNumber, c :: cs⟩

/-- The digits after a point, if there is a point. -/
def fraction : List Char → Except Stop (List Char × List Char)
  | [] => .ok ([], [])
  | c :: cs => if c = '.' then someDigits cs else .ok ([], c :: cs)

/-- The exponent in front of a text, if there is one. -/
def exponent? : List Char → Except Stop (Option Int × List Char)
  | [] => .ok (none, [])
  | c :: cs =>
    if c = 'e' ∨ c = 'E' then do
      let (negative, cs) := Digits.splitSign cs
      let (ds, rest) ← someDigits cs
      return (some (Digits.signed negative (Digits.value ds)), rest)
    else
      .ok (none, c :: cs)

/-- A number after its sign, which counts where the characters in front of the point are counted. -/
def magnitude (limits : Limits) (negative : Bool) (cs : List Char) :
    Except Stop (Json × List Char) := do
  let (whole, rest) ← someDigits cs
  if 1 < whole.length ∧ whole.head? = some '0' then
    throw ⟨.invalidNumber, cs.drop 1⟩
  if limits.characters < whole.length + negative.toNat then
    throw ⟨.numberTooLong, cs.drop (limits.characters + 1 - negative.toNat)⟩
  let (decimals, rest) ← fraction rest
  let (e?, rest) ← exponent? rest
  if decimals.isEmpty && e?.isNone then
    return (.int (Digits.signed negative (Digits.value whole)), rest)
  else
    let coefficient := Digits.value (whole ++ decimals)
    return (.real (.ofDecimal negative coefficient (e?.getD 0 - decimals.length)), rest)

/-- A number after its minus, or infinity. -/
def afterMinus (limits : Limits) : List Char → Except Stop (Json × List Char)
  | [] => .error ⟨.endInValue, []⟩
  | c :: cs =>
    if c = 'I' then do return (.real (.infinite true), ← word "nfinity".toList cs)
    else magnitude limits true (c :: cs)

/-! ## Texts -/

/-- The number that a hexadecimal digit stands for. -/
def hexValue? (c : Char) : Option Nat :=
  if '0' ≤ c ∧ c ≤ '9' then some (c.toNat - '0'.toNat)
  else if 'a' ≤ c ∧ c ≤ 'f' then some (c.toNat - 'a'.toNat + 10)
  else if 'A' ≤ c ∧ c ≤ 'F' then some (c.toNat - 'A'.toNat + 10)
  else none

/-- The number that hexadecimal digits in front of a text stand for, after `n` for the digits
before. -/
def hexDigits : (count n : Nat) → List Char → Except Stop (Nat × List Char)
  | 0, n, cs => .ok (n, cs)
  | _ + 1, _, [] => .error ⟨.endInText, []⟩
  | count + 1, n, c :: cs =>
    match hexValue? c with
    | some d => hexDigits count (16 * n + d) cs
    | none => .error ⟨.invalidEscape, c :: cs⟩

/-- A code in four hexadecimal digits. -/
def code (e : Encoding) (cs : List Char) : Except Stop (Nat × List Char) :=
  if e.size (cs.take 4) < 4 then .error ⟨.endInText, []⟩ else hexDigits 4 0 cs

/-- Whether a code is the first of a pair that stands for one character. -/
def isHigh (n : Nat) : Bool := decide (0xd800 ≤ n ∧ n ≤ 0xdbff)

/-- Whether a code is the second of a pair that stands for one character. -/
def isLow (n : Nat) : Bool := decide (0xdc00 ≤ n ∧ n ≤ 0xdfff)

/-- The character that a pair of codes stands for. -/
def paired (high low : Nat) : Char :=
  Char.ofNat (0x10000 + (high - 0xd800) * 0x400 + (low - 0xdc00))

/-- The second code of a pair, after its backslash. -/
def escapedLow (e : Encoding) : List Char → Except Stop (Nat × List Char)
  | [] => .error ⟨.endInText, []⟩
  | c :: cs =>
    if c = 'u' then do
      let (low, rest) ← code e cs
      if isLow low then return (low, rest) else throw ⟨.loneSurrogate, cs.drop 3⟩
    else
      .error ⟨.incompletePair, c :: cs⟩

/-- The second code of a pair, which follows the first at once. -/
def lowHalf (e : Encoding) : List Char → Except Stop (Nat × List Char)
  | [] => .error ⟨.endInText, []⟩
  | c :: cs => if c = '\\' then escapedLow e cs else .error ⟨.incompletePair, c :: cs⟩

/-- The character that one code or a pair of codes stands for. -/
def coded (e : Encoding) (cs : List Char) : Except Stop (Char × List Char) := do
  let (n, rest) ← code e cs
  if isLow n then
    throw ⟨.loneSurrogate, cs.drop 3⟩
  else if isHigh n then
    let (low, rest) ← lowHalf e rest
    return (paired n low, rest)
  else
    return (Char.ofNat n, rest)

/-- The character that stands behind a letter after a backslash. -/
def letter? : Char → Option Char
  | '"' => some '"'
  | '\\' => some '\\'
  | '/' => some '/'
  | 'b' => some '\x08'
  | 'f' => some '\x0c'
  | 'n' => some '\n'
  | 'r' => some '\r'
  | 't' => some '\t'
  | _ => none

/-- The character that an escape stands for; the text begins after the backslash. -/
def escape (e : Encoding) : List Char → Except Stop (Char × List Char)
  | [] => .error ⟨.endInText, []⟩
  | c :: cs =>
    if c = 'u' then coded e cs
    else
      match letter? c with
      | some d => .ok (d, cs)
      | none => .error ⟨.invalidEscape, c :: cs⟩

/-- The units of the text up to the closing quote. -/
def textBody (e : Encoding) : (fuel : Nat) → List Char → Except Stop (List Char × List Char)
  | 0, _ => .error ⟨.endInText, []⟩
  | _ + 1, [] => .error ⟨.endInText, []⟩
  | fuel + 1, c :: cs =>
    if c = '"' then
      .ok ([], cs)
    else if c = '\\' then do
      let (d, rest) ← escape e cs
      let (ds, rest) ← textBody e fuel rest
      return (e.spell d ++ ds, rest)
    else if c.toNat < 0x20 then
      .error ⟨.controlCharacter, c :: cs⟩
    else do
      let (ds, rest) ← textBody e fuel cs
      return (c :: ds, rest)

/-- A text after its opening quote. Units that spell nothing are found once the text is complete;
their place is counted from the quote in units of what the text spells. -/
def quoted (e : Encoding) (cs : List Char) : Except Stop (String × List Char) := do
  let (ds, rest) ← textBody e (cs.length + 1) cs
  match e.decode ds with
  | .ok s => return (s, rest)
  | .error n => throw ⟨.undecodable, cs.drop n⟩

/-- The colon after a key, with the space around it. -/
def colon (cs : List Char) : Except Stop (List Char) :=
  match skip cs with
  | [] => .error ⟨.endInObject, []⟩
  | c :: rest => if c = ':' then .ok (skip rest) else .error ⟨.expectedColon, c :: rest⟩

/-- A key with the colon after it. -/
def key (e : Encoding) : List Char → Except Stop (String × List Char)
  | [] => .error ⟨.endInValue, []⟩
  | c :: cs =>
    if c = '"' then do
      let (k, rest) ← quoted e cs
      return (k, ← colon rest)
    else
      .error ⟨.keyNotText, c :: cs⟩

/-! ## Values -/

/-- A value that holds no other. The text is not empty and begins without space. -/
def scalar (e : Encoding) (limits : Limits) : List Char → Except Stop (Json × List Char)
  | [] => .error ⟨.endInValue, []⟩
  | c :: cs =>
    if c = '"' then do
      let (s, rest) ← quoted e cs
      return (.text s, rest)
    else if c = 't' then do return (.bool true, ← word "rue".toList cs)
    else if c = 'f' then do return (.bool false, ← word "alse".toList cs)
    else if c = 'n' then do return (.null, ← word "ull".toList cs)
    else if c = 'N' then do return (.real (.nan 0), ← word "aN".toList cs)
    else if c = 'I' then do return (.real (.infinite false), ← word "nfinity".toList cs)
    else if c = '-' then afterMinus limits cs
    else if c.isDigit then magnitude limits false (c :: cs)
    else .error ⟨.expectedValue, c :: cs⟩

/-- What follows an item of a list: nothing after a closing bracket, or the next item after a
comma. -/
def nextItem (cs : List Char) : Except Stop (Bool × List Char) :=
  match skip cs with
  | [] => .error ⟨.endInList, []⟩
  | c :: rest =>
    if c = ']' then .ok (false, rest)
    else if c = ',' then
      match skip rest with
      | [] => .error ⟨.endInValue, []⟩
      | d :: rest => if d = ']' then .error ⟨.trailingComma, d :: rest⟩ else .ok (true, d :: rest)
    else .error ⟨.expectedListEnd, c :: rest⟩

/-- What follows an entry of an object: nothing after a closing brace, or the next entry after a
comma. -/
def nextEntry (cs : List Char) : Except Stop (Bool × List Char) :=
  match skip cs with
  | [] => .error ⟨.endInObject, []⟩
  | c :: rest =>
    if c = '}' then .ok (false, rest)
    else if c = ',' then
      match skip rest with
      | [] => .error ⟨.endInValue, []⟩
      | d :: rest => if d = '}' then .error ⟨.trailingComma, d :: rest⟩ else .ok (true, d :: rest)
    else .error ⟨.expectedObjectEnd, c :: rest⟩

mutual

/-- A value. The text begins without space; `depth` is how much deeper it may be nested. -/
def value (e : Encoding) (limits : Limits) :
    (fuel depth : Nat) → List Char → Except Stop (Json × List Char)
  | 0, _, cs => .error ⟨.tooDeep, cs⟩
  | _ + 1, _, [] => .error ⟨.endInValue, []⟩
  | fuel + 1, depth, c :: cs =>
    if c = '[' then
      match skip cs with
      | [] => .error ⟨.endInList, []⟩
      | d :: rest =>
        if d = ']' then .ok (.array [], rest)
        else if depth = 0 then .error ⟨.tooDeep, d :: rest⟩
        else do
          let (js, rest) ← items e limits fuel (depth - 1) (d :: rest)
          return (.array js, rest)
    else if c = '{' then
      match skip cs with
      | [] => .error ⟨.endInObject, []⟩
      | d :: rest =>
        if d = '}' then .ok (.object [], rest)
        else do
          let (es, rest) ← entries e limits fuel depth (d :: rest)
          return (.object (table es), rest)
    else
      scalar e limits (c :: cs)

/-- The items of a list from one of them to the closing bracket. -/
def items (e : Encoding) (limits : Limits) :
    (fuel depth : Nat) → List Char → Except Stop (List Json × List Char)
  | 0, _, cs => .error ⟨.tooDeep, cs⟩
  | fuel + 1, depth, cs => do
    let (j, rest) ← value e limits fuel depth cs
    let (more, rest) ← nextItem rest
    if more then
      let (js, rest) ← items e limits fuel depth rest
      return (j :: js, rest)
    else
      return ([j], rest)

/-- The entries of an object from one of them to the closing brace. The object itself is already
one of those that may be nested `depth` deep; whether it is one too many shows at a value. -/
def entries (e : Encoding) (limits : Limits) :
    (fuel depth : Nat) → List Char → Except Stop (List (String × Json) × List Char)
  | 0, _, cs => .error ⟨.tooDeep, cs⟩
  | fuel + 1, depth, cs => do
    let (k, rest) ← key e cs
    if depth = 0 ∧ rest ≠ [] then
      throw ⟨.tooDeep, rest⟩
    let (j, rest) ← value e limits fuel (depth - 1) rest
    let (more, rest) ← nextEntry rest
    if more then
      let (es, rest) ← entries e limits fuel depth rest
      return ((k, j) :: es, rest)
    else
      return ([(k, j)], rest)

end

/-- A whole text: one value with space around it. -/
def document (e : Encoding) (limits : Limits) (cs : List Char) : Except Stop Json := do
  let (j, rest) ← value e limits (2 * cs.length + 2) limits.depth (skip cs)
  match skip rest with
  | [] => return j
  | rest => throw ⟨.trailingCharacters, rest⟩

/-- The value that a text spells, or the fault in it with its place. -/
def readUnits (e : Encoding) (limits : Limits) (text : List Char) :
    Except (Fault × Position) Json :=
  match document e limits text with
  | .ok j => .ok j
  | .error stop => .error (stop.fault, .before e text stop.rest)

/-- The value that a text spells, or the fault in it with its place. -/
def read (limits : Limits) (text : String) : Except (Fault × Position) Json :=
  readUnits .characters limits text.toList

/-- The value that bytes spell, or the fault in them with its place. -/
def readBytes (limits : Limits) (bs : List UInt8) : Except (Fault × Position) Json :=
  readUnits .bytes limits (bs.map Encoding.unit)

end Diagnostics.Json
