import Diagnostics.Data.Literal
import Diagnostics.Data.Order

/-!
# Outlines

The outline of data is its literal form broken into lines: whatever does not fit into the width is
opened, each of its parts on lines of its own and indented one step further. A record shows only the
fields that differ from their defaults, and the range of a label as a bare pair.

An outline is first built as a tree (`Outline`) whose leaves are never broken, and then laid out
(`Outline.lines`). Opening is decided from the outside in: a part is opened only when it does not
fit on one line together with what follows it there.
-/

namespace Diagnostics

/-- Text that is never broken, or parts between an opening and a closing text. Each part comes with
the text in front of it. -/
inductive Outline where
  | leaf (text : List Char)
  | branch (opening closing : List Char) (isTuple : Bool) (parts : List (List Char × Outline))

namespace Outline

mutual

/-- An outline on one line. -/
def inline : Outline → List Char
  | leaf text => text
  | branch opening closing isTuple parts =>
    let ts := inlineParts parts
    opening ++ Data.commas ts ++ (if isTuple && ts.length == 1 then ',' :: closing else closing)

/-- The parts of an outline, each on one line. -/
def inlineParts : List (List Char × Outline) → List (List Char)
  | [] => []
  | (key, part) :: parts => (key ++ inline part) :: inlineParts parts

end

/-- How an outline is laid out. -/
structure Settings where
  /-- How many cells fit on a line. -/
  width : Int
  /-- Whether everything is opened, fitting or not. -/
  openAll : Bool
  /-- How many cells a text takes. Wide characters take two each, and some take none. -/
  cells : List Char → Nat := List.length

/-- How much further the parts of an opened outline are indented. -/
def step : Nat := 4

/-- A line that begins with blanks. -/
def indented (indent : Nat) (text : List Char) : List Char := List.replicate indent ' ' ++ text

/-- Whether a part has to be opened: it does not fit with its indentation, the text in front of it
and what follows it. -/
def overflows (s : Settings) (indent : Nat) (text : List Char) (following : Nat) : Bool :=
  s.openAll || decide (s.width < ((indent + following + s.cells text : Nat) : Int))

mutual

/-- The lines of an outline, with a text in front of it. `following` is the room that what follows
takes, and `ending` what is written of it. -/
def lines (s : Settings) (indent : Nat) (key : List Char) (following : Nat)
    (ending : List Char) : Outline → List (List Char)
  | leaf text => [indented indent (key ++ text ++ ending)]
  | branch opening closing isTuple parts =>
    let text := key ++ inline (branch opening closing isTuple parts)
    if !parts.isEmpty && overflows s indent text following then
      let single := isTuple && parts.length == 1
      indented indent (key ++ opening) ::
        (partLines s (indent + step) single parts ++ [indented indent (closing ++ ending)])
    else
      [indented indent (text ++ ending)]

/-- The lines of the parts of an opened outline. A comma ends each part but the last, and also the
last of a tuple with one part. -/
def partLines (s : Settings) (indent : Nat) (single : Bool) :
    List (List Char × Outline) → List (List Char)
  | [] => []
  | (key, part) :: parts =>
    lines s indent key (if single then 1 else 2)
      (if parts.isEmpty && !single then [] else [',']) part ++ partLines s indent single parts

end

/-- The text of an outline. -/
def render (s : Settings) (o : Outline) : String :=
  String.ofList (Data.join ['\n'] (lines s 0 [] 0 [] o))

/-- A collection between brackets; one without parts is a leaf. -/
def bracket (opening closing : List Char) (isTuple : Bool) (empty : List Char)
    (parts : List (List Char × Outline)) : Outline :=
  if parts.isEmpty then leaf empty else branch opening closing isTuple parts

/-- A record: its name in front of its fields in parentheses. -/
def record (name : String) (parts : List (List Char × Outline)) : Outline :=
  branch (name.toList ++ ['(']) [')'] false parts

/-- A part with a name. -/
def part (name : String) (o : Outline) : List Char × Outline := (name.toList ++ ['='], o)

/-- The failure to read the bounds of what is no byte range. -/
def noBounds (d : Data) : Failure :=
  match d with
  | .range .. => .noAttribute d.typeName "end"
  | .slice .. => .noAttribute d.typeName "end"
  | d => .noAttribute d.typeName "start"

/-- A leaf with the literal form of data, or with the reason why there is none. -/
def literalLeaf (d : Data) : Outline :=
  match d.literal with
  | .ok text => leaf text
  | .error e => leaf ("<repr-error ".toList ++ Quoted.text e.message ++ ['>'])

mutual

/-- The outline of data. -/
def ofData : Data → Except Failure Outline
  | .list items => do
    return bracket ['['] [']'] false "[]".toList (← ofItems items)
  | .tuple items => do
    return bracket ['('] [')'] true "()".toList (← ofItems items)
  | .set items => do
    return bracket ['{'] ['}'] false "set()".toList (← ofItems items)
  | .table entries => do
    return bracket ['{'] ['}'] false ['{', '}'] (← ofEntries entries)
  | .byteRange start stop => do
    return record "ByteRange" [part "start" (← ofData start), part "end" (← ofData stop)]
  | .label how file (.byteRange start stop) message => do
    let how ← ofData how
    let file ← ofData file
    let start ← ofData start
    let stop ← ofData stop
    let pair := bracket ['('] [')'] true "()".toList [([], start), ([], stop)]
    let shown ← ofData message
    return record "Label" ([part "style" how, part "file_id" file, part "range" pair] ++
      if Data.equal (.text "") message then [] else [part "message" shown])
  | .label _ _ region _ => .error (noBounds region)
  | .diagnostic level code message labels notes => do
    let level ← ofData level
    let shownCode ← ofData code
    let shownMessage ← ofData message
    let shownLabels ← if Data.equal (.list []) labels then pure (leaf []) else ofData labels
    let shownNotes ← ofData notes
    return record "Diagnostic" ([part "severity" level] ++
      (if Data.equal .none code then [] else [part "code" shownCode]) ++
      (if Data.equal (.text "") message then [] else [part "message" shownMessage]) ++
      (if Data.equal (.list []) labels then [] else [part "labels" shownLabels]) ++
      if Data.equal (.list []) notes then [] else [part "notes" shownNotes])
  | d => .ok (literalLeaf d)

/-- The outlines of items in order. -/
def ofItems : List Data → Except Failure (List (List Char × Outline))
  | [] => .ok []
  | d :: ds => do return ([], ← ofData d) :: (← ofItems ds)

/-- The outlines of the entries of a table, each with its key in front. -/
def ofEntries : List (String × Data) → Except Failure (List (List Char × Outline))
  | [] => .ok []
  | (k, d) :: es => do return (Quoted.text k ++ [':', ' '], ← ofData d) :: (← ofEntries es)

end

end Outline

namespace Data

/-- A field that a record shows: its name, what it holds and the default that is left out. -/
structure Part where
  name : String
  value : Data
  default? : Option Data

/-- The parts that a record shows of itself. -/
def parts : Data → Except Failure (List Part)
  | byteRange start stop => .ok [⟨"start", start, Option.none⟩, ⟨"end", stop, Option.none⟩]
  | label how file (byteRange start stop) message =>
    .ok [⟨"style", how, Option.none⟩, ⟨"file_id", file, Option.none⟩,
      ⟨"range", tuple [start, stop], Option.none⟩, ⟨"message", message, some (text "")⟩]
  | label _ _ region _ => .error (Outline.noBounds region)
  | diagnostic level code message labels notes =>
    .ok [⟨"severity", level, Option.none⟩, ⟨"code", code, some none⟩,
      ⟨"message", message, some (text "")⟩, ⟨"labels", labels, some (list [])⟩,
      ⟨"notes", notes, some (list [])⟩]
  | d => .error (.noAttribute d.typeName "__rich_repr__")

/-- The outline of data within a width. -/
def outline (s : Outline.Settings) (d : Data) : Except Failure String :=
  (Outline.ofData d).map (Outline.render s)

end Data

end Diagnostics
