import Diagnostics.Text.Printable

/-!
# Quoted text

Text between quotation marks, as the literal form of a value shows it. Apostrophes delimit the text
unless it holds an apostrophe and no double quote. What is not printable is written by its code, in
two, four or eight hexadecimal digits, and the common line controls by a letter.
-/

namespace Diagnostics.Quoted

/-- The apostrophe. -/
def apostrophe : Char := Char.ofNat 39

/-- The double quote. -/
def doubleQuote : Char := Char.ofNat 34

/-- The mark that delimits a text. -/
def delimiter (cs : List Char) : Char :=
  if cs.contains apostrophe && !cs.contains doubleQuote then doubleQuote else apostrophe

/-- The hexadecimal digit of a number below sixteen. -/
def hexDigit (n : Nat) : Char := Nat.digitChar n

/-- The lowest `width` hexadecimal digits of a number. -/
def hex : (width : Nat) → Nat → List Char
  | 0, _ => []
  | width + 1, n => hex width (n / 16) ++ [hexDigit (n % 16)]

/-- The code of a character, after a letter that tells how many digits follow. -/
def byCode (code : Nat) : List Char :=
  if code ≤ 0xff then '\\' :: 'x' :: hex 2 code
  else if code ≤ 0xffff then '\\' :: 'u' :: hex 4 code
  else '\\' :: 'U' :: hex 8 code

/-- One character of a quoted text. -/
def escape (shown : Char → Bool) (mark c : Char) : List Char :=
  if c = mark ∨ c = '\\' then ['\\', c]
  else if c = '\n' then ['\\', 'n']
  else if c = '\r' then ['\\', 'r']
  else if c = '\t' then ['\\', 't']
  else if shown c then [c]
  else byCode c.toNat

/-- Characters between the delimiters that suit them. -/
def between (shown : Char → Bool) (cs : List Char) : List Char :=
  let mark := delimiter cs
  mark :: (cs.flatMap (escape shown mark) ++ [mark])

/-- A text in quotes. -/
def text (s : String) : List Char := between isPrintable s.toList

/-- Whether a character is printable ASCII. -/
def isPlain (c : Char) : Bool := decide (0x20 ≤ c.toNat ∧ c.toNat < 0x7f)

/-- Bytes in quotes after the letter `b`; only printable ASCII is shown as it is. -/
def bytes (bs : List UInt8) : List Char :=
  'b' :: between isPlain (bs.map fun b => Char.ofNat b.toNat)

/-- Bytes that can change, in quotes after the letter `b`. Apostrophes are escaped whatever the
delimiter. -/
def buffer (bs : List UInt8) : List Char :=
  let cs := bs.map fun b => Char.ofNat b.toNat
  let mark := delimiter cs
  'b' :: mark :: (cs.flatMap (escape isPlain apostrophe) ++ [mark])

@[simp] theorem length_hex (width n : Nat) : (hex width n).length = width := by
  induction width generalizing n with
  | zero => rfl
  | succ width ih => simp [hex, ih]

theorem escape_shown {shown : Char → Bool} {mark c : Char} (hm : c ≠ mark) (hb : c ≠ '\\')
    (hs : shown c = true) (hn : c ≠ '\n') (hr : c ≠ '\r') (ht : c ≠ '\t') :
    escape shown mark c = [c] := by
  simp [escape, hm, hb, hs, hn, hr, ht]

end Diagnostics.Quoted
