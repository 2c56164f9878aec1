import Diagnostics.Store

/-!
# What a value looks like at one moment

`Data` is a value together with everything it holds, as one tree without locations: what an
observer sees who does not ask which objects are shared. `Store.view` unfolds a value into its data;
it fails only on a value that contains itself, directly or through others.

Reading, comparing and writing are functions of data, so they change nothing and hold for whatever
store the data was taken from.
-/

namespace Diagnostics

/-- A value with all that it holds. Of a one-shot sequence only its location is kept, for looking at
it would use it up. -/
inductive Data where
  | none
  | bool (b : Bool)
  | int (n : Int)
  | real (x : Binary64)
  | text (s : String)
  | bytes (bs : List UInt8)
  | severity (s : Severity)
  | style (s : LabelStyle)
  | list (items : List Data)
  | tuple (items : List Data)
  | table (entries : List (String × Data))
  | set (items : List Data)
  | iterator (l : Loc)
  | range (start stop step : Int)
  | slice (start stop step : Data)
  | buffer (bs : List UInt8)
  | byteRange (start stop : Data)
  | label (style fileId range message : Data)
  | diagnostic (severity code message labels notes : Data)
  deriving Repr, Inhabited

namespace Data

/-- The name of the type of data. -/
def typeName : Data → String
  | none => "NoneType"
  | bool _ => "bool"
  | int _ => "int"
  | real _ => "float"
  | text _ => "str"
  | bytes _ => "bytes"
  | severity _ => "Severity"
  | style _ => "LabelStyle"
  | list _ => "list"
  | tuple _ => "tuple"
  | table _ => "dict"
  | set _ => "set"
  | iterator _ => "list_iterator"
  | range .. => "range"
  | slice .. => "slice"
  | buffer _ => "bytearray"
  | byteRange .. => "ByteRange"
  | label .. => "Label"
  | diagnostic .. => "Diagnostic"

/-- The text that data is, when it is a text or a level or a style. -/
def asText? : Data → Option String
  | text s => some s
  | severity s => some s.word
  | style s => some s.word
  | _ => .none

/-- Whether data is a level or a style. -/
def isMember : Data → Bool
  | severity _ => true
  | style _ => true
  | _ => false

/-- Whether data is a record. -/
def isRecord : Data → Bool
  | byteRange .. => true
  | label .. => true
  | diagnostic .. => true
  | _ => false

/-- The bytes that data is. -/
def asBytes? : Data → Option (List UInt8)
  | bytes bs => some bs
  | buffer bs => some bs
  | _ => .none

/-- The number that data is; a truth value counts as zero or one. -/
def asNumber? : Data → Option Binary64
  | bool b => some (.ofInt b.toNat)
  | int n => some (.ofInt n)
  | real x => some x
  | _ => .none

end Data

namespace Store

/-- The data of a value, unfolding objects at most `depth` deep. -/
def unfold (σ : Store) : (depth : Nat) → Value → Option Data
  | _, .none => some .none
  | _, .bool b => some (.bool b)
  | _, .int n => some (.int n)
  | _, .real x => some (.real x)
  | _, .text s => some (.text s)
  | _, .bytes bs => some (.bytes bs)
  | _, .severity s => some (.severity s)
  | _, .style s => some (.style s)
  | 0, .object _ => none
  | depth + 1, .object l =>
    match σ.get? l with
    | none => none
    | some (.list items) => (items.mapM (σ.unfold depth)).map .list
    | some (.tuple items) => (items.mapM (σ.unfold depth)).map .tuple
    | some (.table entries) =>
      (entries.mapM fun e => (σ.unfold depth e.2).map (e.1, ·)).map .table
    | some (.set items) => (items.mapM (σ.unfold depth)).map .set
    | some (.iterator _) => some (.iterator l)
    | some (.range start stop step) => some (.range start stop step)
    | some (.slice start stop step) => do
      some (.slice (← σ.unfold depth start) (← σ.unfold depth stop) (← σ.unfold depth step))
    | some (.buffer bs) => some (.buffer bs)
    | some (.byteRange r) => do
      some (.byteRange (← σ.unfold depth r.start) (← σ.unfold depth r.stop))
    | some (.label f) => do
      some (.label (← σ.unfold depth f.style) (← σ.unfold depth f.fileId)
        (← σ.unfold depth f.range) (← σ.unfold depth f.message))
    | some (.diagnostic d) => do
      some (.diagnostic (← σ.unfold depth d.severity) (← σ.unfold depth d.code)
        (← σ.unfold depth d.message) (← σ.unfold depth d.labels) (← σ.unfold depth d.notes))

/-- The data of a value. An object that does not contain itself is at most as deep as there are
objects. -/
def view (σ : Store) (v : Value) : Option Data := σ.unfold σ.size v

theorem view_int (σ : Store) (n : Int) : σ.view (.int n) = some (.int n) := by
  unfold view; cases σ.size <;> rfl

theorem view_text (σ : Store) (s : String) : σ.view (.text s) = some (.text s) := by
  unfold view; cases σ.size <;> rfl

theorem view_none (σ : Store) : σ.view .none = some .none := by
  unfold view; cases σ.size <;> rfl

end Store

end Diagnostics
