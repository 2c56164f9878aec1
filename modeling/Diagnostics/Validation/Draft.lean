import Diagnostics.ByteRange
import Diagnostics.Store

/-!
# Records yet to be made

Checking data finds what a record is to hold before the record is made. Where a record is asked for,
one that exists already may be given; it is then taken as it is, and shared (`Draft.existing`).
Building a draft makes new objects and changes none (`Draft.build`).
-/

namespace Diagnostics

/-- A record that exists, or what a new one is to hold. -/
inductive Draft (α : Type) where
  | existing (l : Loc)
  | fresh (fields : α)
  deriving DecidableEq, Repr

/-- What a new label is to hold. -/
structure LabelDraft where
  style : LabelStyle
  fileId : Value
  range : Draft ByteRange
  message : String
  deriving DecidableEq, Repr

/-- What a new diagnostic is to hold. -/
structure DiagnosticDraft where
  severity : Severity
  code : Option String
  message : String
  labels : List (Draft LabelDraft)
  notes : List String
  deriving DecidableEq, Repr

/-- The value of a draft, and the store in which it exists. -/
def Draft.build {α : Type} (make : Store → α → Value × Store) (σ : Store) :
    Draft α → Value × Store
  | existing l => (.object l, σ)
  | fresh fields => make σ fields

namespace Store

/-- Makes a byte range. -/
def newByteRange (σ : Store) (r : ByteRange) : Value × Store :=
  σ.new (.byteRange ⟨.int r.start, .int r.stop⟩)

/-- Makes a label, after its range where that is new. -/
def newLabel (σ : Store) (d : LabelDraft) : Value × Store :=
  let (range, σ) := d.range.build newByteRange σ
  σ.new (.label ⟨.style d.style, d.fileId, range, .text d.message⟩)

/-- Makes what is drafted, in order. -/
def buildAll {α : Type} (make : Store → α → Value × Store) (σ : Store) :
    List (Draft α) → List Value × Store
  | [] => ([], σ)
  | d :: ds =>
    let (v, σ) := d.build make σ
    let (vs, σ) := buildAll make σ ds
    (v :: vs, σ)

/-- Makes a diagnostic with lists of its own. -/
def newDiagnostic (σ : Store) (d : DiagnosticDraft) : Value × Store :=
  let (labels, σ) := σ.buildAll newLabel d.labels
  let (labelList, σ) := σ.new (.list labels)
  let (noteList, σ) := σ.new (.list (d.notes.map .text))
  σ.new (.diagnostic ⟨.severity d.severity, (d.code.map Value.text).getD .none, .text d.message,
    labelList, noteList⟩)

end Store

end Diagnostics
