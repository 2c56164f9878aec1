import Diagnostics.Number.Lenient
import Diagnostics.Store
import Diagnostics.Validation.Check

/-!
# Checks of single values

An offset may be given as any number that is whole, or as a text that spells one; it must not be
below zero. A text may be given as bytes of UTF-8. A level or a style may be given by its word,
which is then a text like any other.
-/

namespace Diagnostics.Validation

/-- An integer that must not be below zero. -/
def natural (n : Int) : Check Nat := if n < 0 then .refuse .negative else .valid n.toNat

/-- An integer in free spelling. -/
def spelled (s : String) : Check Nat :=
  match Lenient.read digitLimit s.toList with
  | .ok n => natural n
  | .error .malformed => .refuse .unreadableInteger
  | .error .oversized => .refuse .oversizedInteger

/-- The size that a floating-point number must not reach to be taken for an integer. -/
def wholeLimit : Nat := Nat.pow 2 63

/-- A floating-point number, which has to be whole and of moderate size. -/
def whole (x : Binary64) : Check Nat :=
  if !x.isFinite then .refuse .notFinite
  else
    match x.toInt? with
    | none => .refuse .fractional
    | some n => if n.natAbs < wholeLimit then natural n else .refuse .oversizedInteger

/-- An offset. -/
def offset : Value → Check Nat
  | .bool b => .valid b.toNat
  | .int n => natural n
  | .real x => whole x
  | .text s => spelled s
  | .severity s => spelled s.word
  | .style s => spelled s.word
  | .bytes bs =>
    match Utf8.decode? bs with
    | some s => spelled s
    | none => .refuse .unreadableInteger
  | _ => .refuse .notAnInteger

/-- A text in bytes. -/
def decoded (bs : List UInt8) : Check String :=
  match Utf8.decode? bs with
  | some s => .valid s
  | none => .refuse .notUnicode

/-- A text. -/
def text (σ : Store) (v : Value) : Check String :=
  match v.asText?, v, σ.cell? v with
  | some s, _, _ => .valid s
  | none, .bytes bs, _ => decoded bs
  | none, _, some (.buffer bs) => decoded bs
  | none, _, _ => .refuse .notText

/-- A text, or nothing. -/
def textOrNone (σ : Store) : Value → Check (Option String)
  | .none => .valid none
  | v => (text σ v).map some

/-- The word that a value is, which may be given in bytes. -/
def word? (σ : Store) (v : Value) : Option String :=
  match v.asText?, v, σ.cell? v with
  | some s, _, _ => some s
  | none, .bytes bs, _ => Utf8.decode? bs
  | none, _, some (.buffer bs) => Utf8.decode? bs
  | none, _, _ => none

/-- A level, as such or by its word. -/
def severity (σ : Store) (v : Value) : Check Severity :=
  match v, (word? σ v).bind Severity.ofWord? with
  | .severity s, _ => .valid s
  | _, some s => .valid s
  | _, none => .refuse (.notAWord (Severity.all.map Severity.word))

/-- A style, as such or by its word. -/
def style (σ : Store) (v : Value) : Check LabelStyle :=
  match v, (word? σ v).bind LabelStyle.ofWord? with
  | .style s, _ => .valid s
  | _, some s => .valid s
  | _, none => .refuse (.notAWord (LabelStyle.all.map LabelStyle.word))

end Diagnostics.Validation
