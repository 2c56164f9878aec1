import Diagnostics.Data.Form
import Diagnostics.Exchange.Log
import Diagnostics.Json.Writer

/-!
# Writing diagnostics

A diagnostic is given away as plain data (`toJson`) or as JSON text (`dump`), and several together
as the text of a list (`dumpAll`). The two kinds of text are laid out differently (`textLayout`,
`listLayout`), and they log at different times: one diagnostic when its text is complete, a list
when its plain data is.
-/

namespace Diagnostics

/-- How diagnostics are written. -/
structure Config where
  /-- How far parts are indented; without it all stands on one line. -/
  indent? : Option Int
  /-- Whether a code that is missing is left out. -/
  omitMissingCode : Bool
  deriving DecidableEq, Repr

/-- On one line, with every field. -/
def Config.standard : Config := ⟨none, false⟩

namespace Exchange

/-- Only records are written. -/
def writable (v : Value) (operation : String) : Action Unit := do
  match ← Action.cell? v with
  | some c => if c.fields?.isSome then return () else Action.noAttribute v operation
  | none => Action.noAttribute v operation

/-- The failure to convert what has no JSON form. -/
def unconvertible : Unformed → Failure
  | .type name => .unwritable name
  | .bytes bs fault => .undecodableBytes bs fault
  | .tooDeep => .tooDeep

/-- The failure to write what has no JSON form. -/
def unwritable : Unformed → Failure
  | .type name => .unwritable name
  | .bytes _ fault => .unreadableBytes fault
  | .tooDeep => .unwritableDepth

/-- An object without an entry. -/
def withoutKey (key : String) : Json → Json
  | .object entries => .object (entries.filter (·.1 != key))
  | j => j

/-- An object without a code that is null. Other objects are asked for a code in vain. -/
def omitMissingCode : Json → Except Failure Json
  | .object entries =>
    match entries.lookup "code" with
    | some .null => .ok (withoutKey "code" (.object entries))
    | some _ => .ok (.object entries)
    | none => .error (.noKey "code")
  | j => .ok j

/-- The plain data of a diagnostic. -/
def toJson (config : Config) (diagnostic : Value) : Action Json := do
  writable diagnostic "model_dump"
  match (← Action.view diagnostic).form with
  | .error e => throw (unconvertible e)
  | .ok j => if config.omitMissingCode then Action.ofExcept (omitMissingCode j) else return j

/-- The layout of the text of one diagnostic: all characters as they are, numbers with the point
placed by position from the fifth place after it on, and exponents of any width. -/
def textLayout (indent? : Option Nat) : Json.Layout := ⟨indent?, false, false, ⟨-5, 15, 1⟩⟩

/-- The layout of the text of a list: ASCII only, with blanks between items, and numbers as in
literals. -/
def listLayout (indent? : Option Nat) : Json.Layout := ⟨indent?, true, true, Data.literalLayout⟩

/-- How many ways there are to fill a word of 64 bits. -/
def wordCount : Int := Nat.pow 2 64

/-- How many numbers not below zero a word of 64 bits with a sign can hold. -/
def signedWordCount : Int := Nat.pow 2 63

/-- The indentation of the text of one diagnostic. -/
def textIndent : Option Int → Except Failure (Option Nat)
  | none => .ok none
  | some n =>
    if n < 0 then .error .negativeIndent
    else if wordCount ≤ n then .error .oversizedIndent
    else .ok (some n.toNat)

/-- The indentation of the text of a list; one below zero counts as zero. -/
def listIndent : Option Int → Except Failure (Option Nat)
  | none => .ok none
  | some n =>
    if n < -signedWordCount ∨ signedWordCount ≤ n then .error .oversizedRepetition
    else .ok (some n.toNat)

/-- The text of one diagnostic. -/
def dumpText (config : Config) (diagnostic : Value) : Action String := do
  let omitted ← if config.omitMissingCode then
    pure ((← Attribute.stored diagnostic "code") == .none) else pure false
  writable diagnostic "model_dump_json"
  let indent? ← Action.ofExcept (textIndent config.indent?)
  match (← Action.view diagnostic).form with
  | .error e => throw (unwritable e)
  | .ok j => return Json.render (textLayout indent?) (if omitted then withoutKey "code" j else j)

/-- Writes one diagnostic. -/
def dump (config : Config) (diagnostic : Value) (σ : Store) : Outcome String :=
  let write : Action (String × LogEntry) := do
    let text ← dumpText config diagnostic
    let (level, labels, notes) ← summary diagnostic
    return (text, .serialized level labels notes text.length)
  match write.perform σ with
  | (.ok (text, entry), τ) => ⟨.ok text, τ, [entry]⟩
  | (.error e, τ) => ⟨.error e, τ, []⟩

/-- The plain data of several diagnostics. -/
def toJsons (config : Config) : List Value → Action (List Json)
  | [] => return []
  | v :: vs => do return (← toJson config v) :: (← toJsons config vs)

/-- The text of the plain data of a list. -/
def listText (config : Config) (items : List Json) : Except Failure String := do
  let indent? ← listIndent config.indent?
  let j := Json.array items
  if j.integersFit (Json.hasFewDigits digitLimit) then .ok (Json.render (listLayout indent?) j)
  else .error .integerTooLong

/-- Writes several diagnostics. -/
def dumpAll (config : Config) (diagnostics : Value) (σ : Store) : Outcome String :=
  let convert : Action (List Json) := do toJsons config (← Action.takeAll diagnostics)
  match convert.perform σ with
  | (.ok items, τ) => ⟨listText config items, τ, [.serializing items.length]⟩
  | (.error e, τ) => ⟨.error e, τ, []⟩

end Exchange

end Diagnostics
