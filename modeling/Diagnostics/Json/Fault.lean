import Diagnostics.Json.Encoding

/-!
# Where and why a text is no JSON

A fault is what the reader found wrong; a position says where, in lines counted from one and in
columns that count the bytes of UTF-8 within the line.
-/

namespace Diagnostics.Json

/-- What is wrong with a text that is no JSON. -/
inductive Fault where
  | endInValue
  | endInList
  | endInObject
  | endInText
  | expectedIdent
  | expectedValue
  | expectedListEnd
  | expectedObjectEnd
  | expectedColon
  | keyNotText
  | trailingComma
  | trailingCharacters
  | invalidNumber
  | numberTooLong
  | controlCharacter
  | invalidEscape
  | loneSurrogate
  | incompletePair
  | undecodable
  | tooDeep
  deriving DecidableEq, Repr

/-- The wording of a fault. -/
def Fault.message : Fault → String
  | endInValue => "EOF while parsing a value"
  | endInList => "EOF while parsing a list"
  | endInObject => "EOF while parsing an object"
  | endInText => "EOF while parsing a string"
  | expectedIdent => "expected ident"
  | expectedValue => "expected value"
  | expectedListEnd => "expected `,` or `]`"
  | expectedObjectEnd => "expected `,` or `\x7d`"
  | expectedColon => "expected `:`"
  | keyNotText => "key must be a string"
  | trailingComma => "trailing comma"
  | trailingCharacters => "trailing characters"
  | invalidNumber => "invalid number"
  | numberTooLong => "number out of range"
  | controlCharacter => "control character (\\u0000-\\u001F) found while parsing a string"
  | invalidEscape => "invalid escape"
  | loneSurrogate => "lone leading surrogate in hex escape"
  | incompletePair => "unexpected end of hex escape"
  | undecodable => "invalid unicode code point"
  | tooDeep => "recursion limit exceeded"

/-- A place in a text. -/
structure Position where
  line : Nat
  column : Nat
  deriving DecidableEq, Repr

/-- The position of the unit after the first `n`, when reading starts at `p`. A line break stands in
column zero of the line that it opens, and the end of the text in the column of the last byte. -/
def Position.advance (e : Encoding) (p : Position) : List Char → (n : Nat) → Position
  | [], _ => p
  | c :: _, 0 => if c = '\n' then ⟨p.line + 1, 0⟩ else ⟨p.line, p.column + 1⟩
  | c :: cs, n + 1 =>
    advance e (if c = '\n' then ⟨p.line + 1, 0⟩ else ⟨p.line, p.column + e.width c⟩) cs n

/-- The position in a text at which `rest` is left of it. -/
def Position.before (e : Encoding) (text rest : List Char) : Position :=
  advance e ⟨1, 0⟩ text (text.length - rest.length)

end Diagnostics.Json
