import Diagnostics.Exchange.Log
import Diagnostics.Json.Reader
import Diagnostics.Record

/-!
# Reading diagnostics

Reading a text is reading JSON, making the value with new objects, and checking it like any other
data. Data that fails the checks is logged; a failure that aborts them is not.
-/

namespace Diagnostics.Exchange

mutual

/-- The value of JSON, with new objects. -/
def ofJson (σ : Store) : Json → Value × Store
  | .null => (.none, σ)
  | .bool b => (.bool b, σ)
  | .int n => (.int n, σ)
  | .real (.nan _) => let (x, σ) := σ.newNan; (.real x, σ)
  | .real x => (.real x, σ)
  | .text s => (.text s, σ)
  | .array items =>
    let (vs, σ) := ofJsons σ items
    σ.new (.list vs)
  | .object entries =>
    let (es, σ) := ofEntries σ entries
    σ.new (.table es)

/-- The values of items in order. -/
def ofJsons (σ : Store) : List Json → List Value × Store
  | [] => ([], σ)
  | j :: js =>
    let (v, σ) := ofJson σ j
    let (vs, σ) := ofJsons σ js
    (v :: vs, σ)

/-- The values of entries in order. -/
def ofEntries (σ : Store) : List (String × Json) → List (String × Value) × Store
  | [] => ([], σ)
  | (k, j) :: es =>
    let (v, σ) := ofJson σ j
    let (vs, σ) := ofEntries σ es
    ((k, v) :: vs, σ)

end

/-- Makes the value of JSON. -/
def make (j : Json) : Action Value := fun σ => let (v, σ) := ofJson σ j; (.ok v, σ)

/-- The JSON value in a text, which may be given in bytes, if it is a text at all. -/
def readText? (σ : Store) (v : Value) : Option (Except (Json.Fault × Json.Position) Json) :=
  match v.asText?, v, σ.cell? v with
  | some s, _, _ => some (Json.read .standard s)
  | none, .bytes bs, _ => some (Json.readBytes .standard bs)
  | none, _, some (.buffer bs) => some (Json.readBytes .standard bs)
  | none, _, _ => none

/-- The JSON value in a text, or why there is none. -/
def parse (σ : Store) (v : Value) : Except IssueKind Json :=
  match readText? σ v with
  | none => .error .notJsonText
  | some (.ok j) => .ok j
  | some (.error (fault, position)) => .error (.malformedJson fault position)

/-- A check of the value in a text, which is made with new objects. -/
def checkText {α : Type} (check : Store → Value → Check α) (σ : Store) (v : Value) :
    Check α × Store :=
  match parse σ v with
  | .error kind => (.refuse kind, σ)
  | .ok j =>
    let (v, τ) := ofJson σ j
    (check τ v, τ)

/-- Reads one diagnostic from plain data. -/
def ofPlain (data : Value) (σ : Store) : Outcome Value :=
  match (Record.ofData .diagnostic data).perform σ with
  | (.error (.invalid title issues), τ) =>
    ⟨.error (.invalid title issues), τ, [.rejected issues.length]⟩
  | (result, τ) => ⟨result, τ, []⟩

/-- The outcome of reading a text in vain, which is logged with the length of the text. -/
def notLoaded (text : Value) (title : String) (issues : List Issue) (σ : Store) : Outcome Value :=
  match (length text).perform σ with
  | (.ok chars, τ) =>
    ⟨.error (.invalid title issues), τ, [.notLoaded chars (Issue.headline title issues)]⟩
  | (.error e, τ) => ⟨.error e, τ, []⟩

/-- Reads one diagnostic from text. -/
def load (text : Value) (σ : Store) : Outcome Value :=
  match checkText (Validation.diagnostic .json) σ text with
  | (.valid d, τ) =>
    let (v, τ) := d.build Store.newDiagnostic τ
    match (summary v).perform τ with
    | (.ok (level, labels, notes), τ) => ⟨.ok v, τ, [.loaded level labels notes]⟩
    | (.error e, τ) => ⟨.error e, τ, []⟩
  | (.invalid issues, _) => notLoaded text "Diagnostic" issues σ
  | (.aborted e, τ) => ⟨.error e, τ, []⟩

/-- The title over what is wrong with a list of diagnostics. -/
def listTitle : String := "list[Diagnostic]"

/-- Reads several diagnostics from text. -/
def loadAll (text : Value) (σ : Store) : Outcome Value :=
  match checkText (Validation.listOf .json (Validation.diagnostic .json)) σ text with
  | (.valid ds, τ) =>
    let (vs, τ) := τ.buildAll Store.newDiagnostic ds
    let (v, τ) := τ.new (.list vs)
    ⟨.ok v, τ, [.loadedAll vs.length]⟩
  | (.invalid issues, τ) =>
    ⟨.error (.invalid listTitle issues), τ, [.notLoadedAll issues.length]⟩
  | (.aborted e, τ) => ⟨.error e, τ, []⟩

end Diagnostics.Exchange
