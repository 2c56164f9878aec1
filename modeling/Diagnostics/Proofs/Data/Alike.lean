import Diagnostics.Data.Order
import Diagnostics.Proofs.Exchange.Content

/-!
# Data that equals itself

Not all data equals itself, for there are numbers that are no numbers. A tree of values that JSON has
does (`IsNative.equal_self`), and so does a diagnostic that holds what it is declared for, with such
trees for files (`DiagnosticContent.equal_data_self`).
-/

namespace Diagnostics

namespace Data

theorem alikeAll_self {ds : List Data} (h : ∀ d ∈ ds, alike d d) : alikeAll ds ds := by
  induction ds with
  | nil => rw [alikeAll]
  | cons d ds ih =>
    obtain ⟨hd, hds⟩ := List.forall_mem_cons.1 h
    rw [alikeAll, hd, ih hds]
    rfl

/-- A table with no key twice has all its entries at their keys. -/
theorem lookup_of_mem {es : List (String × Data)} (keys : es.Pairwise (·.1 ≠ ·.1))
    {e : String × Data} (he : e ∈ es) : es.lookup e.1 = some e.2 := by
  induction es with
  | nil => cases he
  | cons x es ih =>
    obtain ⟨hx, hes⟩ := List.pairwise_cons.1 keys
    obtain ⟨k, d⟩ := x
    rcases List.mem_cons.1 he with rfl | he
    · exact List.lookup_cons_self
    · rw [List.lookup_cons, beq_false_of_ne (hx e he).symm]
      exact ih hes he

theorem entriesIn_of_lookup {es fs : List (String × Data)} (h : ∀ e ∈ es, alike e.2 e.2)
    (hlookup : ∀ e ∈ es, fs.lookup e.1 = some e.2) : entriesIn es fs := by
  induction es with
  | nil => rw [entriesIn]
  | cons e es ih =>
    obtain ⟨he, hes⟩ := List.forall_mem_cons.1 h
    obtain ⟨hfirst, hrest⟩ := List.forall_mem_cons.1 hlookup
    obtain ⟨k, d⟩ := e
    rw [entriesIn, hfirst, ih hes hrest]
    simpa using he

/-- Native data is like itself. -/
theorem IsNative.alike_self {d : Data} (h : d.IsNative) : alike d d := by
  induction h with
  | none => rw [alike]
  | bool b => simp [alike, alikePlain, asNumber?, Binary64.ofInt, Binary64.order]
  | int n => simp [alike, alikePlain, asNumber?, Binary64.ofInt, Binary64.order]
  | text s => simp [alike, alikePlain, asNumber?, asText?]
  | list _ ih =>
    rw [alike]
    exact alikeAll_self ih
  | table _ keys ih =>
    rw [alike, entriesIn_of_lookup ih fun e he => lookup_of_mem keys he]
    simp

/-- **Native data.** A tree of values that JSON has equals itself. -/
theorem IsNative.equal_self {d : Data} (h : d.IsNative) : equal d d := by
  cases h with
  | none | bool b | int n | text s | list | table =>
    rw [equal]
    · exact IsNative.alike_self (by constructor <;> assumption)
    · nofun

end Data

open Data

theorem ByteRange.alike_data_self (r : ByteRange) : alike r.data r.data := by
  simp [ByteRange.data, alike, alikePlain, asNumber?, Binary64.ofInt, Binary64.order]

theorem LabelContent.alike_data_self {c : LabelContent} (h : c.fileId.IsNative) :
    alike c.data c.data := by
  have hstyle : alike (.style c.style) (.style c.style) := by
    simp [alike, alikePlain, asNumber?, asText?]
  rw [LabelContent.data, alike, hstyle, h.alike_self, c.range.alike_data_self,
    (IsNative.text c.message).alike_self]
  rfl

/-- **Diagnostics.** A diagnostic in native files equals itself. -/
theorem DiagnosticContent.equal_data_self {c : DiagnosticContent} (h : c.IsNative) :
    equal c.data c.data := by
  have hseverity : alike (.severity c.severity) (.severity c.severity) := by
    simp [alike, alikePlain, asNumber?, asText?]
  have hcode : alike ((c.code.map Data.text).getD .none) ((c.code.map Data.text).getD .none) := by
    rcases c.code with _ | s
    · exact IsNative.none.alike_self
    · exact (IsNative.text s).alike_self
  have hlabels : alikeAll (c.labels.map LabelContent.data) (c.labels.map LabelContent.data) :=
    alikeAll_self (List.forall_mem_map.2 fun l hl => l.alike_data_self (h l hl))
  have hnotes : alikeAll (c.notes.map Data.text) (c.notes.map Data.text) :=
    alikeAll_self (List.forall_mem_map.2 fun s _ => (IsNative.text s).alike_self)
  rw [DiagnosticContent.data, equal, alike, hseverity, hcode, (IsNative.text c.message).alike_self]
  · simp [alike, hlabels, hnotes]
  · simp

end Diagnostics
