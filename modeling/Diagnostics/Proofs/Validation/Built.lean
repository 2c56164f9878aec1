import Diagnostics.Proofs.Validation.FromJson

/-!
# Drafts become what they are drafts of

Building a draft only adds objects, and the value that comes of it shows what was drafted
(`newLabel_of_isDraft`, `newDiagnostic_of_isDraft`). Drafts that are built one after another leave
each other alone (`buildAll_of_each`), for a view stays what it was in a store that grows.
-/

namespace Diagnostics.Store

variable {σ τ : Store}

/-- Whether a value is new and shows some data: what is built leaves all other objects as they
were. -/
def Makes (σ : Store) (made : Value × Store) (d : Data) : Prop :=
  σ.Grows made.2 ∧ made.2.view made.1 = some d

theorem newByteRange_makes (σ : Store) (r : ByteRange) : σ.Makes (σ.newByteRange r) r.data := by
  refine ⟨.alloc _ _, view_alloc (.byteRange (get?_alloc_self _ _) ?_ ?_)⟩
  · exact view_int _ _
  · exact view_int _ _

theorem new_list_makes {vs : List Value} {ds : List Data}
    (h : List.Forall₂ (fun v d => σ.view v = some d) vs ds) :
    σ.Makes (σ.new (.list vs)) (.list ds) :=
  ⟨.alloc _ _, view_alloc (.list (get?_alloc_self _ _) h)⟩

/-- **Labels.** A draft of a label becomes the label. -/
theorem newLabel_of_isDraft {c : LabelContent} {d : Draft LabelDraft} (h : c.IsDraft σ d) :
    σ.Makes (d.build newLabel σ) c.data := by
  obtain ⟨file, rfl, hfile⟩ := h
  obtain ⟨hgrows, hrange⟩ := σ.newByteRange_makes c.range
  refine ⟨hgrows.trans (.alloc _ _), view_alloc (.label (get?_alloc_self _ _) ?_ ?_ ?_ ?_)⟩
  · exact view_of_unfold_zero rfl
  · exact view_of_grows hgrows hfile
  · exact hrange
  · exact view_text _ _

/-- Drafts that each become what they are drafts of do so one after another. -/
theorem buildAll_of_each {α β : Type} {make : Store → β → Value × Store}
    {P : Store → α → Draft β → Prop} {f : α → Data}
    (hmono : ∀ σ τ a d, σ.Grows τ → P σ a d → P τ a d)
    (hmake : ∀ σ a d, P σ a d → σ.Makes (d.build make σ) (f a))
    {as : List α} {ds : List (Draft β)} (h : List.Forall₂ (P σ) as ds) :
    σ.Grows (σ.buildAll make ds).2 ∧
      List.Forall₂ (fun v a => (σ.buildAll make ds).2.view v = some (f a))
        (σ.buildAll make ds).1 as := by
  -- on the drafts: those behind the first one are built in a store that has grown by it
  induction ds generalizing σ as with
  | nil =>
    cases h
    exact ⟨.refl σ, .nil⟩
  | cons d ds ih =>
    rcases h with _ | ⟨hd, hds⟩
    obtain ⟨hfirst, hview⟩ := hmake _ _ _ hd
    obtain ⟨hmore, hviews⟩ := ih (hds.imp fun _ _ => hmono _ _ _ _ hfirst)
    exact ⟨hfirst.trans hmore, .cons (view_of_grows hmore hview) hviews⟩

/-- **Diagnostics.** A draft of a diagnostic becomes the diagnostic. -/
theorem newDiagnostic_of_isDraft {c : DiagnosticContent} {d : Draft DiagnosticDraft}
    (h : c.IsDraft σ d) : σ.Makes (d.build newDiagnostic σ) c.data := by
  obtain ⟨labels, rfl, hlabels⟩ := h
  obtain ⟨hbuilt, hviews⟩ := buildAll_of_each (P := LabelContent.IsDraft)
    (fun _ _ _ _ hσ h => h.mono hσ) (fun _ _ _ => newLabel_of_isDraft) hlabels
  obtain ⟨hlist, hlistView⟩ := new_list_makes (List.forall₂_map_right_iff.2 hviews)
  -- the notes are texts, which show the same whatever has been made before
  have hnotes : List.Forall₂ (fun v d => ((σ.buildAll newLabel labels).2.new
      (.list (σ.buildAll newLabel labels).1)).2.view v = some d)
      (c.notes.map Value.text) (c.notes.map Data.text) := by
    rw [List.forall₂_map_left_iff, List.forall₂_map_right_iff, List.forall₂_same]
    exact fun s _ => view_text _ s
  obtain ⟨hlines, hlinesView⟩ := new_list_makes hnotes
  have hgrows := (hbuilt.trans hlist).trans hlines
  refine ⟨hgrows.trans (.alloc _ _), view_alloc (.diagnostic (get?_alloc_self _ _) ?_ ?_ ?_ ?_ ?_)⟩
  · exact view_of_unfold_zero rfl
  · rcases c.code with _ | code
    · exact view_none _
    · exact view_text _ _
  · exact view_text _ _
  · exact view_of_grows hlines hlistView
  · exact hlinesView

/-- **Lists.** Drafts of diagnostics become a list of the diagnostics. -/
theorem new_list_of_areDrafts {cs : List DiagnosticContent} {ds : List (Draft DiagnosticDraft)}
    (h : List.Forall₂ (DiagnosticContent.IsDraft σ) cs ds) :
    let (vs, τ) := σ.buildAll newDiagnostic ds
    vs.length = cs.length ∧
      σ.Makes (τ.new (.list vs)) (.list (cs.map DiagnosticContent.data)) := by
  obtain ⟨hbuilt, hviews⟩ := buildAll_of_each (P := DiagnosticContent.IsDraft)
    (fun _ _ _ _ hσ h => h.mono hσ) (fun _ _ _ => newDiagnostic_of_isDraft) h
  obtain ⟨hlist, hview⟩ := new_list_makes (List.forall₂_map_right_iff.2 hviews)
  exact ⟨hviews.length_eq, hbuilt.trans hlist, hview⟩

end Diagnostics.Store
