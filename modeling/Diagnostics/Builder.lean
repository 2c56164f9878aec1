import Diagnostics.Attribute
import Diagnostics.Record

/-!
# Building diagnostics step by step

A diagnostic is built by steps that change it and give it back: the code and the message are
replaced, labels and notes are appended in order. What is set or noted becomes text first; when that
fails for one of several notes, the notes before it stay.

Labels and notes may come from any collection. `extend` takes all labels at once, so a list may be
appended to itself; the other steps take one at a time and never come to an end with the very list
that they append to (`Failure.unending`). So it is with notes that extend a list too, because each
becomes a text only when it is its turn (`extendFrom`). Bytes that can change take the place of a list
as far as what is appended are bytes.

Rebinding (`withFile`) makes a new diagnostic whose labels all point into another file. It shares no
label, range or list with the old one. The old labels are taken one at a time.
-/

namespace Diagnostics.Builder

/-- Refuses a step that values of the type do not have. -/
def noStep {α : Type} (v : Value) (step : String) : Action α := Action.noAttribute v step

/-- Refuses to grow what is neither a list nor made of bytes that can change. -/
def growing (v : Value) (step : String) : Action Unit := do
  match ← Action.cell? v with
  | some (.list _) => return ()
  | some (.buffer _) => return ()
  | _ => Action.noAttribute v step

/-- Sets the code of a diagnostic. -/
def withCode (receiver code : Value) : Action Unit := do
  match receiver, ← Action.cell? receiver with
  | .object l, some (.diagnostic d) =>
    let s ← Action.plainText code
    Action.update l (.diagnostic { d with code := .text s })
  | _, _ => noStep receiver "with_code"

/-- Sets the message of a diagnostic or of a label. -/
def withMessage (receiver message : Value) : Action Unit := do
  match receiver, ← Action.cell? receiver with
  | .object l, some (.diagnostic d) =>
    let s ← Action.plainText message
    Action.update l (.diagnostic { d with message := .text s })
  | .object l, some (.label f) =>
    let s ← Action.plainText message
    Action.update l (.label { f with message := .text s })
  | _, _ => noStep receiver "with_message"

/-- The fields of a diagnostic that takes a step. -/
def receiverFields (receiver : Value) (step : String) : Action DiagnosticFields := do
  match ← Action.cell? receiver with
  | some (.diagnostic d) => return d
  | _ => noStep receiver step

/-- The bytes that a value gives one by one. -/
def takeBytes (values : Value) : Action (List UInt8) := do
  match values, ← Action.cell? values with
  | .bytes bs, _ => return bs
  | _, some (.buffer bs) => return bs
  | _, _ =>
    if ((← get).elements? values).isNone then throw (.noBytes (← Action.typeName values))
    Action.takeEach values Attribute.byteOf (← Action.elements values)

/-- Appends values to a list, or bytes to bytes that can change, all at once. -/
def extend (target values : Value) : Action Unit := do
  match target, ← Action.cell? target with
  | .object l, some (.list items) =>
    let vs ← Action.takeAll values
    Action.update l (.list (items ++ vs))
  | .object l, some (.buffer bs) =>
    let cs ← takeBytes values
    Action.update l (.buffer (bs ++ cs))
  | _, _ => Action.noAttribute target "extend"

/-- Appends labels to those of a diagnostic, all at once. -/
def withLabels (receiver labels : Value) : Action Unit := do
  let d ← receiverFields receiver "with_labels"
  extend d.labels labels

/-- Whether a value is not empty and the very one that is appended to. -/
def feedsItself (target source : Value) : Action Bool := do
  match ← Action.cell? source with
  | some (.list (_ :: _)) => return target == source
  | some (.buffer (_ :: _)) => return target == source
  | _ => return false

/-- Appends what is made of a value. -/
def appendMade (target : Value) (make : Value → Action Value) (v : Value) : Action Unit := do
  growing target "append"
  Attribute.append target (← make v)

/-- Appends what is made of the elements of a value. -/
def appendFrom (target source : Value) (make : Value → Action Value) : Action Unit := do
  let isEndless ← feedsItself target source
  let _ ← Action.takeEach source (appendMade target make) (← Action.elements source)
  if isEndless then throw .unending

/-- Appends labels to those of a diagnostic, one at a time. -/
def withLabelsEach (receiver labels : Value) : Action Unit := do
  let d ← receiverFields receiver "with_labels_iter"
  appendFrom d.labels labels pure

/-- Extends a list or bytes by what is made of the elements of a value. A list gets each of them as
soon as it is made, and bytes get them when all are there. -/
def extendFrom (target source : Value) (make : Value → Action Value) : Action Unit := do
  match target, ← Action.cell? target with
  | _, some (.list _) =>
    let isEndless ← feedsItself target source
    let _ ← Action.takeEach source (fun v => do Attribute.append target (← make v))
      (← Action.elements source)
    if isEndless then throw .unending
  | .object l, some (.buffer bs) =>
    let cs ← Action.takeEach source (fun v => do Attribute.byteOf (← make v))
      (← Action.elements source)
    Action.update l (.buffer (bs ++ cs))
  | _, _ => Action.noAttribute target "extend"

/-- A note as a text. -/
def noteOf (v : Value) : Action Value := do return .text (← Action.plainText v)

/-- Extends the notes of a diagnostic. -/
def withNotes (receiver notes : Value) : Action Unit := do
  let d ← receiverFields receiver "with_notes"
  extendFrom d.notes notes noteOf

/-- Appends notes to those of a diagnostic, one at a time. -/
def withNotesEach (receiver notes : Value) : Action Unit := do
  let d ← receiverFields receiver "with_notes_iter"
  appendFrom d.notes notes noteOf

/-- A copy of an object that can change, with what it holds shared; all else is its own copy. -/
def copy (v : Value) : Action Value := do
  match ← Action.cell? v with
  | none => return v
  | some (.tuple _) => return v
  | some (.range ..) => return v
  | some (.slice ..) => return v
  | some c => Action.copyOf v c

/-- A copy of a record; nothing else can be copied in this way. -/
def copyRecord (v : Value) : Action Value := do
  match ← Action.cell? v with
  | some c => if c.fields?.isSome then Action.copyOf v c else Action.noAttribute v "model_copy"
  | none => Action.noAttribute v "model_copy"

/-- A label like another one, in another file. -/
def labelWithFile (f : LabelFields) (fileId : Value) : Action Value := do
  let range ← copyRecord f.range
  Record.labelOfFields
    [("style", f.style), ("file_id", fileId), ("range", range), ("message", f.message)]

/-- Whether a value can be given another file. -/
def isRebindable : Option Cell → Bool
  | some (.label _) => true
  | some (.diagnostic _) => true
  | _ => false

/-- What takes the place of a label, with a copy of the file of its own. -/
def rebindOne (rebind : (fileId label : Value) → Action Value) (fileId label : Value) :
    Action Value := do
  if !isRebindable (← Action.cell? label) then noStep label "with_file"
  rebind (← copy fileId) label

/-- A label or a diagnostic like another one, in another file. `depth` is how deep diagnostics may
be nested in place of labels. -/
def rebind : (depth : Nat) → (fileId receiver : Value) → Action Value
  | 0, _, _ => throw .circular
  | depth + 1, fileId, v => do
    match ← Action.cell? v with
    | some (.label f) => labelWithFile f fileId
    | some (.diagnostic d) =>
      let labels ← Action.takeEach d.labels (rebindOne (rebind depth) fileId)
        (← Action.elements d.labels)
      let labelList ← Action.new (.list labels)
      let noteList ← Action.new (.list (← Action.takeAll d.notes))
      Record.diagnosticOfFields
        [("severity", d.severity), ("code", d.code), ("message", d.message),
          ("labels", labelList), ("notes", noteList)]
    | _ => noStep v "with_file"

/-- A label or a diagnostic like another one, in another file. -/
def withFile (receiver fileId : Value) : Action Value := do
  rebind ((← get).size + 1) fileId receiver

end Diagnostics.Builder
