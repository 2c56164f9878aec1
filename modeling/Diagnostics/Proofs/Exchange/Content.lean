import Diagnostics.Exchange.Writing
import Diagnostics.Proofs.Data.Portable

/-!
# Diagnostics that hold what they are declared for

Any value can be assigned to a field. `DiagnosticContent` is what a diagnostic holds where every
field holds a value of its declared type; only the file of a label can be anything. `data` is how
such a diagnostic shows in a store, and `json` is the JSON that is written for it.

Where the files of the labels are portable and not too deep, `json` is the form of `data`
(`DiagnosticContent.form_data`). A code that is missing is left out in two ways, and both take
`json false` to `json true` (`omitMissingCode_json`, `withoutKey_json`).
-/

namespace Diagnostics

/-! ## Contents -/

/-- What a label holds. -/
structure LabelContent where
  style : LabelStyle
  fileId : Data
  range : ByteRange
  message : String

/-- What a diagnostic holds. -/
structure DiagnosticContent where
  severity : Severity
  code : Option String
  message : String
  labels : List LabelContent
  notes : List String

/-- How a byte range shows. -/
def ByteRange.data (r : ByteRange) : Data := .byteRange (.int r.start) (.int r.stop)

/-- The JSON of a byte range. -/
def ByteRange.json (r : ByteRange) : Json := .object [("start", .int r.start), ("end", .int r.stop)]

namespace LabelContent

/-- How a label shows. -/
def data (c : LabelContent) : Data :=
  .label (.style c.style) c.fileId c.range.data (.text c.message)

/-- The JSON of a label. -/
def json (c : LabelContent) : Json :=
  .object [("style", .text c.style.word), ("file_id", c.fileId.json), ("range", c.range.json),
    ("message", .text c.message)]

end LabelContent

namespace DiagnosticContent

/-- How a diagnostic shows. -/
def data (c : DiagnosticContent) : Data :=
  .diagnostic (.severity c.severity) ((c.code.map Data.text).getD .none) (.text c.message)
    (.list (c.labels.map LabelContent.data)) (.list (c.notes.map Data.text))

/-- The entry for a code; there can be none where the code is missing. -/
def codeEntry (omitMissingCode : Bool) : Option String → List (String × Json)
  | some code => [("code", .text code)]
  | none => if omitMissingCode then [] else [("code", .null)]

/-- The entries of the JSON of a diagnostic, without a code where that is missing and may be left
out. -/
def entries (omitMissingCode : Bool) (c : DiagnosticContent) : List (String × Json) :=
  ("severity", .text c.severity.word) :: (codeEntry omitMissingCode c.code ++
    [("message", .text c.message), ("labels", .array (c.labels.map LabelContent.json)),
      ("notes", .array (c.notes.map Json.text))])

/-- The JSON of a diagnostic. -/
def json (omitMissingCode : Bool) (c : DiagnosticContent) : Json :=
  .object (c.entries omitMissingCode)

/-- Whether the files of all labels can be written. -/
def IsPortable (c : DiagnosticContent) : Prop := ∀ l ∈ c.labels, l.fileId.IsPortable

/-- Whether the files of all labels are read back as they were. -/
def IsNative (c : DiagnosticContent) : Prop := ∀ l ∈ c.labels, l.fileId.IsNative

/-- Whether the files of all labels are not too deep to be written. -/
def HasRoom (c : DiagnosticContent) : Prop := ∀ l ∈ c.labels, l.fileId.levels ≤ nestingLimit

theorem IsNative.isPortable {c : DiagnosticContent} (h : c.IsNative) : c.IsPortable :=
  fun l hl => (h l hl).isPortable

theorem IsPortable.hasRoom {c : DiagnosticContent} (h : c.IsPortable)
    (hroom : ∀ l ∈ c.labels, l.fileId.json.nesting + 2 ≤ nestingLimit) : c.HasRoom :=
  fun l hl => Nat.le_trans (Data.levels_le_nesting (h l hl)) (hroom l hl)

end DiagnosticContent

/-! ## The JSON of contents -/

theorem ByteRange.isExact_json (r : ByteRange) : r.json.IsExact :=
  .object (by simp [Json.IsExact.int]) (by simp)

theorem LabelContent.isExact_json {c : LabelContent} (h : c.fileId.IsPortable) :
    c.json.IsExact :=
  .object (by simp [Json.IsExact.text, h.isExact_json, c.range.isExact_json]) (by simp)

namespace DiagnosticContent

variable {c : DiagnosticContent} {omitMissingCode : Bool}

/-- The JSON of a diagnostic is exact. -/
theorem isExact_json (h : c.IsPortable) : (c.json omitMissingCode).IsExact := by
  have hlabels : (Json.array (c.labels.map LabelContent.json)).IsExact :=
    .array (List.forall_mem_map.2 fun l hl => l.isExact_json (h l hl))
  have hnotes : (Json.array (c.notes.map Json.text)).IsExact :=
    .array (List.forall_mem_map.2 fun s _ => .text s)
  rcases hcode : c.code with _ | code
  · cases omitMissingCode <;> refine .object ?_ ?_ <;>
      simp [entries, codeEntry, hcode, Json.IsExact.text, Json.IsExact.null, hlabels, hnotes]
  · refine .object ?_ ?_ <;>
      simp [entries, codeEntry, hcode, Json.IsExact.text, hlabels, hnotes]

/-- The files of labels are three levels deep in the JSON of a diagnostic. -/
theorem nesting_fileId {l : LabelContent} (hl : l ∈ c.labels) :
    l.fileId.json.nesting + 3 ≤ (c.json omitMissingCode).nesting := by
  have hfile : l.fileId.json.nesting < l.json.nesting :=
    Json.nesting_lt_of_mem_entries (e := ("file_id", l.fileId.json)) (by simp)
  have hlabel : l.json.nesting < (Json.array (c.labels.map LabelContent.json)).nesting :=
    Json.nesting_lt_of_mem_items (List.mem_map_of_mem hl)
  have hlabels : (Json.array (c.labels.map LabelContent.json)).nesting <
      (c.json omitMissingCode).nesting :=
    Json.nesting_lt_of_mem_entries (e := ("labels", .array (c.labels.map LabelContent.json)))
      (by simp [entries])
  omega

/-- But for the code, the entries are the same whether a missing one is left out or not. -/
theorem lookup_entries {key : String} (h : (key == "code") = false) :
    (c.entries omitMissingCode).lookup key =
      [("severity", Json.text c.severity.word), ("message", .text c.message),
        ("labels", .array (c.labels.map LabelContent.json)),
        ("notes", .array (c.notes.map Json.text))].lookup key := by
  have hcode : (codeEntry omitMissingCode c.code).lookup key = none := by
    rcases c.code with _ | code <;> cases omitMissingCode <;> simp [codeEntry, List.lookup_cons, h]
  rw [entries, List.lookup_cons, List.lookup_cons, List.lookup_append, hcode, Option.none_or]

/-- The keys of a diagnostic are its fields, in the order in which they are declared. -/
theorem map_fst_entries (c : DiagnosticContent) (omitMissingCode : Bool) :
    (c.entries omitMissingCode).map Prod.fst =
      if omitMissingCode = true ∧ c.code = none then ["severity", "message", "labels", "notes"]
      else ["severity", "code", "message", "labels", "notes"] := by
  rcases hcode : c.code with _ | code <;> cases omitMissingCode <;>
    simp [entries, codeEntry, hcode]

/-- A diagnostic has no entry for a code exactly when the code is missing and may be left out. -/
theorem lookup_code_eq_none_iff :
    (c.entries omitMissingCode).lookup "code" = none ↔ omitMissingCode = true ∧ c.code = none := by
  rcases hcode : c.code with _ | code <;> cases omitMissingCode <;>
    simp [entries, codeEntry, hcode, List.lookup_cons]

/-- A code is left out of a finished object where it is null. -/
theorem omitMissingCode_json (c : DiagnosticContent) :
    Exchange.omitMissingCode (c.json false) = .ok (c.json true) := by
  rcases hcode : c.code with _ | code <;>
    simp [json, entries, Exchange.omitMissingCode, Exchange.withoutKey, codeEntry, hcode,
      List.lookup_cons]

/-- A code is left out of an object in the making where it is missing. -/
theorem withoutKey_json (h : c.code = none) :
    Exchange.withoutKey "code" (c.json false) = c.json true := by
  simp [json, entries, Exchange.withoutKey, codeEntry, h]

/-- A code that is there stays. -/
theorem json_of_code (h : c.code ≠ none) : c.json omitMissingCode = c.json false := by
  obtain ⟨code, hcode⟩ := Option.ne_none_iff_exists'.1 h
  simp [json, entries, codeEntry, hcode]

end DiagnosticContent

/-! ## Forms -/

theorem Slot.enter_of_takes {s : Slot} {d : Data} (room : Nat) (h : s.takes d = true) :
    s.enter room d = .ok room := by
  simp only [enter, cost, h, if_true]
  exact if_pos (Nat.zero_le _)

theorem Data.formIn_text {s : Slot} {room : Nat} (t : String) (h : s.takes (.text t) = true) :
    formIn s room (.text t) = .ok (.text t) := by
  rw [formIn, s.enter_of_takes room h]
  rfl

theorem ByteRange.formIn_data (r : ByteRange) (room : Nat) :
    r.data.formIn .byteRange room = .ok r.json := by
  have hoffset : ∀ n : Nat, Data.formIn .offset room (.int n) = .ok (.int n) := by
    intro n
    rw [Data.formIn, Slot.enter_of_takes room rfl]
    rfl
  rw [data, Data.formIn, Slot.enter_of_takes room rfl]
  simp only [bind, Except.bind, reduceCtorEq, if_false, hoffset]
  rfl

theorem LabelContent.formIn_data {c : LabelContent} {room : Nat} (h : c.fileId.IsPortable)
    (hroom : c.fileId.levels ≤ room) : c.data.formIn .label room = .ok c.json := by
  have hstyle : Data.formIn .style room (.style c.style) = .ok (.text c.style.word) := by
    rw [Data.formIn, Slot.enter_of_takes room rfl]
    rfl
  rw [data, Data.formIn, Slot.enter_of_takes room rfl]
  simp only [bind, Except.bind, reduceCtorEq, if_false, hstyle, Data.formIn_portable h hroom,
    c.range.formIn_data, Data.formIn_text c.message (s := .text) rfl]
  rfl

namespace DiagnosticContent

variable {c : DiagnosticContent}

/-- **Forms of diagnostics.** A diagnostic that holds what it is declared for has its JSON for its
form, code and all, if the files of its labels are not too deep. -/
theorem form_data (h : c.IsPortable) (hroom : c.HasRoom) :
    c.data.form = .ok (c.json false) := by
  -- every field takes its form from its slot, and what is outside of one is the files of labels
  have hseverity : Data.formIn .severity nestingLimit (.severity c.severity) =
      .ok (.text c.severity.word) := by
    rw [Data.formIn, Slot.enter_of_takes _ rfl]
    rfl
  have hcode : Data.formIn .textOrNone nestingLimit ((c.code.map Data.text).getD .none) =
      .ok ((c.code.map Json.text).getD .null) := by
    rcases c.code with _ | code
    · simp only [Option.map_none, Option.getD_none]
      rw [Data.formIn, Slot.enter_of_takes _ rfl]
      rfl
    · exact Data.formIn_text code rfl
  have hlabels : Data.formIn .labels nestingLimit (.list (c.labels.map LabelContent.data)) =
      .ok (.array (c.labels.map LabelContent.json)) := by
    rw [Data.formIn, Slot.enter_of_takes _ rfl]
    have hforms := Data.formsIn_map fun l hl =>
      LabelContent.formIn_data (h l hl) (hroom l hl)
    simp only [bind, Except.bind, Slot.item, hforms]
    rfl
  have hnotes : Data.formIn .texts nestingLimit (.list (c.notes.map Data.text)) =
      .ok (.array (c.notes.map Json.text)) := by
    rw [Data.formIn, Slot.enter_of_takes _ rfl]
    have hforms : Data.formsIn .text nestingLimit _ = .ok (c.notes.map Json.text) :=
      Data.formsIn_map fun s _ => Data.formIn_text s rfl
    simp only [bind, Except.bind, Slot.item, hforms]
    rfl
  have hjson : c.json false = .object [("severity", .text c.severity.word),
      ("code", (c.code.map Json.text).getD .null), ("message", .text c.message),
      ("labels", .array (c.labels.map LabelContent.json)),
      ("notes", .array (c.notes.map Json.text))] := by
    rcases hcode : c.code with _ | code <;> simp [json, entries, codeEntry, hcode]
  rw [hjson, Data.form, data, Data.formIn, Slot.enter_of_takes _ rfl]
  simp only [bind, Except.bind, reduceCtorEq, if_false, hseverity, hcode, hlabels, hnotes,
    Data.formIn_text c.message (s := .text) rfl]
  rfl

end DiagnosticContent

end Diagnostics
