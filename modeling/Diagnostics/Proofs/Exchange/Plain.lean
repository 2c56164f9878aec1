import Diagnostics.Proofs.Data.Normal
import Diagnostics.Proofs.Exchange.Parsed
import Diagnostics.Proofs.Exchange.RoundTrip

/-!
# Diagnostics are taken from the plain data that they give

The plain data of a diagnostic is taken as a diagnostic again (`ofPlain_toJson`). What JSON does not
have has been lost on the way: the files of the labels come back in their normal form, and nothing
else has changed. So the plain data of the new diagnostic is that of the old one.

Unlike texts, plain data has no limits for integers, and for nesting only those of writing.
-/

namespace Diagnostics

/-- What is left of a label in JSON. -/
def LabelContent.normal (c : LabelContent) : LabelContent := { c with fileId := c.fileId.normal }

namespace DiagnosticContent

/-- What is left of a diagnostic in JSON. -/
def normal (c : DiagnosticContent) : DiagnosticContent :=
  { c with labels := c.labels.map LabelContent.normal }

variable {c : DiagnosticContent} {omitMissingCode : Bool}

theorem IsPortable.isNative_normal (h : c.IsPortable) : c.normal.IsNative :=
  List.forall_mem_map.2 fun l hl => (h l hl).isNative_normal

theorem IsPortable.hasRoom_normal (h : c.IsPortable) (hroom : c.HasRoom) : c.normal.HasRoom :=
  List.forall_mem_map.2 fun l hl => Nat.le_trans (h l hl).levels_normal_le (hroom l hl)

theorem IsPortable.json_normal (h : c.IsPortable) :
    c.normal.json omitMissingCode = c.json omitMissingCode := by
  have hlabels : c.labels.map (LabelContent.json ∘ LabelContent.normal) =
      c.labels.map LabelContent.json := by
    refine List.map_congr_left fun l hl => ?_
    rw [Function.comp_apply, LabelContent.json, LabelContent.json, LabelContent.normal,
      (h l hl).json_normal]
  rw [json, json, entries, entries, normal, List.map_map, hlabels]

theorem IsNative.normal_eq (h : c.IsNative) : c.normal = c := by
  have hlabels : ∀ l ∈ c.labels, l.normal = l := by
    intro l hl
    rw [LabelContent.normal, (h l hl).normal_eq]
  rw [normal, List.map_congr_left hlabels, List.map_id']

end DiagnosticContent

namespace Exchange

variable {c : DiagnosticContent} {σ : Store} {v : Value}

/-- A warning in a file that is named by a pair of a level and a large number. -/
def pairedSample : DiagnosticContent :=
  ⟨.warning, some "W1", "", [⟨.secondary, .tuple [.severity .note, .int (2 ^ 70)], ⟨0, 2 ^ 70⟩, ""⟩],
    []⟩

/-- The warning, as the last object. -/
def pairedStore : Store :=
  ⟨[.byteRange ⟨.int 0, .int (2 ^ 70)⟩, .tuple [.severity .note, .int (2 ^ 70)],
    .label ⟨.style .secondary, .object 1, .object 0, .text ""⟩, .list [.object 2], .list [],
    .diagnostic ⟨.severity .warning, .text "W1", .text "", .object 3, .object 4⟩], 0, [], {}⟩

end Exchange

end Diagnostics
