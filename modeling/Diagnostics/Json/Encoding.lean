import Diagnostics.Text.Utf8

/-!
# Texts in characters and texts in bytes

JSON is read from the units of a text, which are characters or the bytes of UTF-8. A byte is kept
as the character with its number, so a text is a list of characters either way, and an `Encoding`
says what its units stand for. All signs with a meaning in JSON are one unit in both encodings.

Bytes that are no characters are refused where a text between quotes holds them; anywhere else they
are as unexpected as any other sign.
-/

namespace Diagnostics.Json

/-- What the units of a text stand for. -/
structure Encoding where
  /-- How many bytes a unit takes. -/
  width : Char → Nat
  /-- The units that a character is written with. -/
  spell : Char → List Char
  /-- The text that units spell, or how many units there are before the first that spells
  nothing. -/
  decode : List Char → Except Nat String

namespace Encoding

/-- Units that are characters. -/
def characters : Encoding := ⟨Char.utf8Size, fun c => [c], fun cs => .ok (String.ofList cs)⟩

/-- A byte as a unit. -/
def unit (b : UInt8) : Char := Char.ofNat b.toNat

/-- Units that are bytes. -/
def bytes : Encoding where
  width _ := 1
  spell c := (String.utf8EncodeChar c).map unit
  decode cs := (Utf8.decode (cs.map fun c => UInt8.ofNat c.toNat)).mapError Utf8.Fault.offset

/-- How many bytes units take. -/
def size (e : Encoding) : List Char → Nat
  | [] => 0
  | c :: cs => e.width c + e.size cs

end Encoding

end Diagnostics.Json
