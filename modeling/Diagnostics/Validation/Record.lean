import Diagnostics.Store.Literal
import Diagnostics.Validation.Draft
import Diagnostics.Validation.Scalar

/-!
# Checks of records

Data for a record is a table of its fields, or a record of that type. Every field is checked, in
order of declaration, and keys that name no field are passed over.

The range of a label may also be given as a pair of offsets or as a range of integers
(`Validation.asByteRange`). What has such a form but does not describe a range ends the whole check
with a failure, unlike bounds that are no offsets, which are issues like any other.
-/

namespace Diagnostics.Validation

/-- A field that has to be there. -/
def required {α : Type} (name : String) (check : Value → Check α)
    (entries : List (String × Value)) : Check α :=
  match entries.lookup name with
  | some v => (check v).under (.field name)
  | none => .invalid [⟨[.field name], .missing⟩]

/-- A field that may be left out. -/
def optional {α : Type} (name : String) (default : α) (check : Value → Check α)
    (entries : List (String × Value)) : Check α :=
  match entries.lookup name with
  | some v => (check v).under (.field name)
  | none => .valid default

/-- A record: an existing one of the type that `isRecord` tells, or one with the fields given. -/
def record {α : Type} (source : Source) (name : String) (isRecord : Cell → Bool)
    (fields : List (String × Value) → Check α) (σ : Store) (v : Value) : Check (Draft α) :=
  match v, σ.cell? v with
  | .object l, some c =>
    if isRecord c then .valid (.existing l)
    else
      match c with
      | .table entries => (fields entries).map .fresh
      | _ => .refuse (.notARecord source name)
  | _, _ => .refuse (.notARecord source name)

/-- The elements of a value that can be read as a list, and the store in which they exist. -/
def listElements? (σ : Store) (v : Value) : Option (List Value × Store) :=
  match σ.cell? v with
  | some (.table _) => none
  | some (.buffer _) => none
  | some _ => σ.elements? v
  | none => none

/-- A list, each of whose items is checked. -/
def listOf {α : Type} (source : Source) (check : Store → Value → Check α) (σ : Store) (v : Value) :
    Check (List α) :=
  match listElements? σ v with
  | some (items, σ) => Check.each (check σ) 0 items
  | none => .refuse (.notAList source)

/-- The store after a list has been checked: a one-shot sequence has been used up as far as it was
looked at. -/
def spend {α : Type} (check : Store → Value → Check α) (σ : Store) (v : Value) : Store :=
  match listElements? σ v with
  | some (items, _) => σ.leave v (Check.unread (check σ) items)
  | none => σ

/-! ## Byte ranges -/

/-- A byte range from its bounds. -/
def bounds (start stop : Value) : Check (Draft ByteRange) :=
  (Check.both ((offset start).under (.field "start")) ((offset stop).under (.field "end"))).map
    fun p => .fresh ⟨p.1, p.2⟩

/-- The fields of a byte range. -/
def byteRangeFields (entries : List (String × Value)) : Check ByteRange :=
  (Check.both (required "start" offset entries) (required "end" offset entries)).map
    fun p => ⟨p.1, p.2⟩

/-- A byte range or its fields. -/
def byteRange (source : Source) (σ : Store) (v : Value) : Check (Draft ByteRange) :=
  record source "ByteRange" (· matches .byteRange _) byteRangeFields σ v

/-- Whether a value equals one. -/
def isOne : Value → Bool
  | .bool b => b
  | .int n => n == 1
  | .real x => x.order (.ofInt 1) == some .eq
  | _ => false

/-- The failure of a range, with its literal form in the explanation; where there is no such form,
the failure to write it. -/
def explain (σ : Store) (v : Value) (cause : String → Failure) : Failure :=
  match σ.literalText v with
  | .ok s => cause s
  | .error e => e

/-- A byte range from two items. -/
def pair : List Value → Check (Draft ByteRange)
  | [start, stop] => bounds start stop
  | items => .aborted (.notAPair items.length)

/-- A byte range from whatever describes one: a byte range, a range of integers with a step of one,
the bounds of a part, or a sequence of two offsets. -/
def asByteRange (σ : Store) (v : Value) : Check (Draft ByteRange) :=
  match v, σ.cell? v with
  | .object l, some (.byteRange _) => .valid (.existing l)
  | _, some (.range start stop step) =>
    if step = 1 then bounds (.int start) (.int stop)
    else .aborted (explain σ v .unevenRange)
  | _, some (.slice start stop step) =>
    if step != .none && !isOne step then .aborted (explain σ v .unevenRange)
    else if stop = .none then .aborted (explain σ v .openRange)
    else bounds (if start = .none then .int 0 else start) stop
  | _, some (.list items) => pair items
  | _, some (.tuple items) => pair items
  | _, some (.buffer bs) => pair (byteElements bs)
  | _, _ => .aborted (.notARange (σ.typeName v))

/-! ## Labels -/

/-- What a failure becomes inside a label: a failure to write an explanation is an issue. -/
def contain {α : Type} : Check α → Check α
  | .aborted .integerTooLong =>
    .refuse (.unexplained Failure.integerTooLong.message)
  | c => c

/-- The range of a label. -/
def labelRange (source : Source) (σ : Store) (v : Value) : Check (Draft ByteRange) :=
  match σ.cell? v with
  | some (.list _) => contain (asByteRange σ v)
  | some (.tuple _) => contain (asByteRange σ v)
  | some (.range ..) => contain (asByteRange σ v)
  | some (.slice ..) => contain (asByteRange σ v)
  | _ => byteRange source σ v

/-- The fields of a label. -/
def labelFields (source : Source) (σ : Store) (entries : List (String × Value)) :
    Check LabelDraft :=
  (Check.both (required "style" (style σ) entries)
    (Check.both (required "file_id" Check.valid entries)
      (Check.both (required "range" (labelRange source σ) entries)
        (optional "message" "" (text σ) entries)))).map
    fun p => ⟨p.1, p.2.1, p.2.2.1, p.2.2.2⟩

/-- A label or its fields. -/
def label (source : Source) (σ : Store) (v : Value) : Check (Draft LabelDraft) :=
  record source "Label" (· matches .label _) (labelFields source σ) σ v

/-! ## Diagnostics -/

/-- The store after the labels of a diagnostic have been checked. -/
def spendLabels (source : Source) (σ : Store) (entries : List (String × Value)) : Store :=
  match entries.lookup "labels" with
  | some v => spend (label source) σ v
  | none => σ

/-- The labels among the fields of a diagnostic. -/
def labels (source : Source) (σ : Store) (entries : List (String × Value)) :
    Check (List (Draft LabelDraft)) :=
  optional "labels" [] (listOf source (label source) σ) entries

/-- The notes among the fields of a diagnostic. -/
def notes (source : Source) (σ : Store) (entries : List (String × Value)) : Check (List String) :=
  optional "notes" [] (listOf source text σ) entries

/-- The fields of a diagnostic. The notes are looked at after the labels. -/
def diagnosticFields (source : Source) (σ : Store) (entries : List (String × Value)) :
    Check DiagnosticDraft :=
  (Check.both (required "severity" (severity σ) entries)
    (Check.both (optional "code" none (textOrNone σ) entries)
      (Check.both (optional "message" "" (text σ) entries)
        (Check.both (labels source σ entries)
          (notes source (spendLabels source σ entries) entries))))).map
    fun p => ⟨p.1, p.2.1, p.2.2.1, p.2.2.2.1, p.2.2.2.2⟩

/-- A diagnostic or its fields. -/
def diagnostic (source : Source) (σ : Store) (v : Value) : Check (Draft DiagnosticDraft) :=
  record source "Diagnostic" (· matches .diagnostic _) (diagnosticFields source σ) σ v

/-- The store after the fields of a diagnostic have been checked. -/
def spendFields (source : Source) (σ : Store) (entries : List (String × Value)) : Store :=
  let τ := spendLabels source σ entries
  if (labels source σ entries).isAborted then τ
  else
    match entries.lookup "notes" with
    | some v => spend text τ v
    | none => τ

/-- The store after a diagnostic has been checked. -/
def spendDiagnostic (source : Source) (σ : Store) (v : Value) : Store :=
  match σ.cell? v with
  | some (.table entries) => spendFields source σ entries
  | _ => σ

end Diagnostics.Validation
