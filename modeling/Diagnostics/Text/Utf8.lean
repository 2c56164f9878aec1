/-!
# Reading UTF-8

Bytes are read as text, or refused at the first place where no character can be read. The refusal
tells where that is, and how many bytes are to blame: one to three, or all that is left when the
bytes end inside a character.
-/

namespace Diagnostics.Utf8

/-- Why bytes are no text: at `offset` either `length` bytes cannot start or continue a character,
or the bytes end too early. -/
inductive Fault where
  | invalid (offset length : Nat)
  | incomplete (offset : Nat)
  deriving DecidableEq, Repr

/-- The place of the first byte that cannot be read. -/
def Fault.offset : Fault → Nat
  | invalid offset _ => offset
  | incomplete offset => offset

/-- How many bytes are to blame, out of so many in all. -/
def Fault.extent (total : Nat) : Fault → Nat
  | invalid _ length => length
  | incomplete offset => total - offset

/-- Whether a byte continues a character. -/
def continues (b : UInt8) : Bool := decide (0x80 ≤ b.toNat ∧ b.toNat ≤ 0xbf)

/-- Whether the second byte suits the first byte of a character of three bytes: no overlong forms
and no surrogates. -/
def suitsThree (first second : UInt8) : Bool :=
  continues second && (if first = 0xe0 then decide (0xa0 ≤ second.toNat)
    else if first = 0xed then decide (second.toNat ≤ 0x9f) else true)

/-- Whether the second byte suits the first byte of a character of four bytes: no overlong forms
and nothing above the last code point. -/
def suitsFour (first second : UInt8) : Bool :=
  continues second && (if first = 0xf0 then decide (0x90 ≤ second.toNat)
    else if first = 0xf4 then decide (second.toNat ≤ 0x8f) else true)

/-- The low six bits of a continuing byte. -/
def low (b : UInt8) : Nat := b.toNat % 64

/-- The characters of bytes that stand at an offset, in front of those already known to follow. -/
def decodeFrom (offset : Nat) : List UInt8 → Except Fault (List Char)
  | [] => .ok []
  | a :: rest =>
    let n := a.toNat
    if n < 0x80 then
      (decodeFrom (offset + 1) rest).map (Char.ofNat n :: ·)
    else if n < 0xc2 ∨ 0xf4 < n then
      .error (.invalid offset 1)
    else if n < 0xe0 then
      match rest with
      | [] => .error (.incomplete offset)
      | b :: rest =>
        if continues b then
          (decodeFrom (offset + 2) rest).map (Char.ofNat (n % 32 * 64 + low b) :: ·)
        else
          .error (.invalid offset 1)
    else if n < 0xf0 then
      match rest with
      | [] => .error (.incomplete offset)
      | b :: rest =>
        if suitsThree a b then
          match rest with
          | [] => .error (.incomplete offset)
          | c :: rest =>
            if continues c then
              (decodeFrom (offset + 3) rest).map
                (Char.ofNat (n % 16 * 4096 + low b * 64 + low c) :: ·)
            else
              .error (.invalid offset 2)
        else
          .error (.invalid offset 1)
    else
      match rest with
      | [] => .error (.incomplete offset)
      | b :: rest =>
        if suitsFour a b then
          match rest with
          | [] => .error (.incomplete offset)
          | c :: rest =>
            if continues c then
              match rest with
              | [] => .error (.incomplete offset)
              | d :: rest =>
                if continues d then
                  (decodeFrom (offset + 4) rest).map
                    (Char.ofNat (n % 8 * 262144 + low b * 4096 + low c * 64 + low d) :: ·)
                else
                  .error (.invalid offset 3)
            else
              .error (.invalid offset 2)
        else
          .error (.invalid offset 1)

/-- The text that bytes spell. -/
def decode (bs : List UInt8) : Except Fault String := (decodeFrom 0 bs).map String.ofList

/-- The text that bytes spell, if they spell one. -/
def decode? (bs : List UInt8) : Option String := (decode bs).toOption

example : decode [0xc3, 0xa9, 0xff] = .error (.invalid 2 1) := by rfl
example : decode [0xe2, 0x82] = .error (.incomplete 0) := by rfl
example : decode [0xf0, 0x9f, 0x98, 0x80] = .ok "😀" := by rfl

end Diagnostics.Utf8
