import Diagnostics.Action
import Diagnostics.Validation.Record

/-!
# Making records

A record is made from data that passes the checks of its type, or from its parts. A label takes as
its range whatever describes one; that is settled first, on its own, before the label is checked.
-/

namespace Diagnostics

/-- The types of records. -/
inductive RecordType where
  | byteRange
  | label
  | diagnostic
  deriving DecidableEq, Repr

/-- The name of a type of records. -/
def RecordType.name : RecordType → String
  | byteRange => "ByteRange"
  | label => "Label"
  | diagnostic => "Diagnostic"

namespace Record

/-- Makes the draft that was found valid. -/
def build {α : Type} (make : Store → α → Value × Store) (title : String)
    (check : Store → Check (Draft α)) : Action Value := fun σ =>
  match (check σ).toExcept title with
  | .ok d => let (v, σ) := d.build make σ; (.ok v, σ)
  | .error e => (.error e, σ)

/-- Makes a diagnostic out of data that is checked; one-shot sequences in the data are used up
whether it passes or not. -/
def buildDiagnostic (source : Source) (v : Value) : Action Value := fun σ =>
  let τ := Validation.spendDiagnostic source σ v
  match (Validation.diagnostic source σ v).toExcept "Diagnostic" with
  | .ok d => let (v, τ) := d.build Store.newDiagnostic τ; (.ok v, τ)
  | .error e => (.error e, τ)

/-- The record that data describes. -/
def ofData (type : RecordType) (v : Value) : Action Value :=
  match type with
  | .byteRange =>
    build Store.newByteRange type.name fun σ => Validation.byteRange .values σ v
  | .label => build Store.newLabel type.name fun σ => Validation.label .values σ v
  | .diagnostic => buildDiagnostic .values v

/-- The byte range that a value describes; one that is given is taken as it is. -/
def toByteRange (v : Value) : Action Value :=
  build Store.newByteRange "ByteRange" fun σ => Validation.asByteRange σ v

/-- A label from its fields. -/
def labelOfFields (fields : List (String × Value)) : Action Value :=
  build Store.newLabel "Label" fun σ => (Validation.labelFields .values σ fields).map .fresh

/-- A label of a style, in a file, at what describes a range. -/
def label (style fileId range : Value) : Action Value := do
  let range ← toByteRange range
  labelOfFields [("style", style), ("file_id", fileId), ("range", range)]

/-- A diagnostic from its fields. -/
def diagnosticOfFields (fields : List (String × Value)) : Action Value :=
  build Store.newDiagnostic "Diagnostic"
    fun σ => (Validation.diagnosticFields .values σ fields).map .fresh

/-- A diagnostic of some level and nothing else. -/
def diagnostic (severity : Value) : Action Value := diagnosticOfFields [("severity", severity)]

end Record

end Diagnostics
