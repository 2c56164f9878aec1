import Diagnostics.Proofs.Builder.Copied
import Diagnostics.Proofs.Builder.Edits
import Diagnostics.Proofs.Data.Alike

/-!
# Rebinding separates

A diagnostic that was made by rebinding shares no object with the one that it was made of, but for
what the files of its labels hold. So whatever is done with either of them afterwards, the other one
stays what it was (`withFile_separate`): the objects of the one are clear of all that the other
reaches, and edits of what is clear spare the rest. The files of the labels, if they are objects, are
copies, one for each label; to append to one of them changes no other.
-/

namespace Diagnostics

variable {σ τ ρ : Store} {v w fileId : Value} {k l : Loc} {a b : Anatomy} {file : Data}

namespace Store

/-- The objects that a value reaches, as far as they are there. -/
def Holdings (σ : Store) (v : Value) (k : Loc) : Prop := k < σ.size ∧ σ.Reaches v k

/-- Whether all that a value reaches is what it was, so that the value still shows the same. -/
structure Preserves (σ ρ : Store) (v : Value) : Prop where
  get?_eq : ∀ k, σ.Holdings v k → ρ.get? k = σ.get? k
  carried?_eq : ∀ k, σ.Holdings v k → ∀ name, ρ.carried? (.object k) name = σ.carried? (.object k) name
  view : ∀ d, σ.view v = some d → ρ.view v = some d

/-- Views are preserved with the objects that are reached. -/
theorem preserves_of_get? (hget : ∀ k, σ.Holdings v k → ρ.get? k = σ.get? k)
    (hcarried : ∀ k, σ.Holdings v k → ∀ name,
      ρ.carried? (.object k) name = σ.carried? (.object k) name) : σ.Preserves ρ v := by
  refine ⟨hget, hcarried, fun d hd => view_of_shown (fun l c hl hc => ?_) hd⟩
  rw [hget l ⟨lt_size_of_get? hc, hl.reaches_of_shown⟩, hc]
  exact .same _

/-- What is spared after a store has grown is preserved all along. -/
theorem Extends.preserves (h : σ.Extends τ) (hspared : τ.Spares (σ.Holdings v) ρ) :
    σ.Preserves ρ v := by
  have hgrown : σ.Spares (σ.Holdings v) τ := h.spares fun k hk => hk.1
  exact preserves_of_get? (hgrown.trans hspared).get?_eq (hgrown.trans hspared).carried?_eq

/-- All objects of a tree of values that JSON has are there. -/
theorem lt_size_of_isNative (hv : σ.view v = some file) (hfile : file.IsNative)
    (hk : σ.Reaches v k) : k < σ.size := by
  induction hk generalizing file with
  | here l =>
    cases view_iff_unfolds.1 hv with
    | list cell _ => exact lt_size_of_get? cell
    | table cell _ => exact lt_size_of_get? cell
    | _ => cases hfile
  | through cell mem _ ih =>
    cases view_iff_unfolds.1 hv with
    | list hl items =>
      obtain rfl := Option.some.inj (cell.symm.trans hl)
      cases hfile with
      | list hitems =>
        obtain ⟨d, hd, hshows⟩ := exists_of_mem_left items mem
        exact ih hshows (hitems d hd)
    | table hl entries =>
      obtain rfl := Option.some.inj (cell.symm.trans hl)
      cases hfile with
      | table hvalues =>
        obtain ⟨e, he, rfl⟩ := List.mem_map.1 mem
        obtain ⟨x, hx, -, hshows⟩ := exists_of_mem_left entries he
        exact ih hshows (hvalues x hx)
    | _ => cases hfile

end Store

open Store

/-! ## The objects of either side -/

namespace Anatomy

/-- The objects of a diagnostic are among those that are made for it. -/
theorem objects_sublist_made (b : Anatomy) : b.objects.Sublist b.made := by
  refine .append ?_ (.refl _)
  induction b.parts with
  | nil => exact .refl _
  | cons q qs ih => exact .append (List.sublist_append_right _ _) ih

/-- A diagnostic is clear of what its objects are not among. -/
theorem IsIn.isClear (h : a.IsIn σ) {P : Loc → Prop} (hP : ∀ k ∈ a.objects, ¬ P k) :
    σ.IsClear P (.object a.diagnostic) :=
  fun k hk => ⟨h.lt_size (h.mem_objects hk), hP k (h.mem_objects hk)⟩

namespace Rebound

/-- The objects of the new diagnostic are new. -/
theorem le_of_mem_objects (h : a.Rebound σ fileId τ b) (hk : k ∈ b.objects) : σ.size ≤ k :=
  (h.made.mem k (b.objects_sublist_made.subset hk)).1

theorem exists_part (h : a.Rebound σ fileId τ b) {q : Part} (hq : q ∈ b.parts) :
    ∃ p ∈ a.parts, p.Rebound τ fileId q :=
  exists_of_mem_right h.parts hq

/-- A file that is an object has been copied. -/
theorem exists_copy (h : a.Rebound σ (.object l) τ b) {q : Part} (hq : q ∈ b.parts) :
    ∃ j, q.fileId = .object j ∧ τ.get? j = τ.get? l ∧ σ.size ≤ j ∧ j ∈ q.made := by
  obtain ⟨p, -, hp⟩ := h.exists_part hq
  generalize hcopy : q.fileId = w
  have hcopied := hp.copied
  rw [hcopy] at hcopied
  cases hcopied with
  | plain _ hloc => cases hloc
  | @object _ j c source copy =>
    have hj : j ∈ q.made := by simp [Part.made, hcopy, Value.loc?]
    refine ⟨j, rfl, by rw [copy, source], ?_, hj⟩
    exact (h.made.mem j (List.mem_append_left _ (List.mem_flatMap.2 ⟨q, hq, hj⟩))).1

/-- From the file of a new label one gets to that file, and to what the given file reaches. -/
theorem cases_of_reaches_file (h : a.Rebound σ fileId τ b) (hfile : σ.view fileId = some file)
    (hnative : file.IsNative) {q : Part} (hq : q ∈ b.parts) (hk : τ.Reaches q.fileId k) :
    q.fileId = .object k ∧ σ.size ≤ k ∨ σ.Reaches fileId k := by
  cases fileId with
  | object l =>
    obtain ⟨j, hcopy, hj, hle, -⟩ := h.exists_copy hq
    rw [hcopy] at hk ⊢
    cases hk with
    | here => exact .inl ⟨rfl, hle⟩
    | through cell mem rest =>
      rw [hj] at cell
      have hold : τ.Reaches (.object l) k := .through cell mem rest
      exact .inr (hold.of_grows h.grown.grows fun k => lt_size_of_isNative hfile hnative)
  | _ =>
    obtain ⟨p, -, hp⟩ := h.exists_part hq
    obtain ⟨j, hj⟩ := hk.exists_object
    have hcopied := hp.copied
    rw [hj] at hcopied
    cases hcopied

/-- The new diagnostic reaches new objects, and what the file reaches. -/
theorem reaches (h : a.Rebound σ fileId τ b) (hfile : σ.view fileId = some file)
    (hnative : file.IsNative) (hk : τ.Reaches (.object b.diagnostic) k) :
    σ.size ≤ k ∨ σ.Reaches fileId k := by
  rcases h.isIn.reaches hk with hk | ⟨q, hq, hk⟩
  · exact .inl (h.le_of_mem_objects hk)
  · exact (h.cases_of_reaches_file hfile hnative hq hk).imp_left And.right

/-- The file of a new label shows what the given file shows. -/
theorem view_file (h : a.Rebound σ fileId τ b) (hfile : σ.view fileId = some file)
    (hnative : file.IsNative) {q : Part} (hq : q ∈ b.parts) : τ.view q.fileId = some file := by
  obtain ⟨p, -, hp⟩ := h.exists_part hq
  exact hp.copied.view (view_of_grows h.grown.grows hfile) hnative

/-- The files of the new labels are objects of their own. -/
theorem nodup_files (h : a.Rebound σ (.object l) τ b) : (b.parts.map Part.fileId).Nodup := by
  have hordered := (List.pairwise_append.1 h.made.ordered).1
  refine List.pairwise_map.2 ((List.pairwise_flatMap.1 hordered).2.imp_of_mem ?_)
  intro p q hp hq hlt heq
  obtain ⟨i, hi, -, -, himade⟩ := h.exists_copy hp
  obtain ⟨j, hj, -, -, hjmade⟩ := h.exists_copy hq
  rw [hi, hj] at heq
  exact Nat.ne_of_lt (hlt i himade j hjmade) (Value.object.inj heq)

end Rebound

end Anatomy

/-! ## Files that are appended to -/

/-- Appending changes no object but the one that is appended to. -/
theorem Attribute.append_get? (l : Loc) (w : Value) (σ : Store) :
    (∀ k, k ≠ l → ((append (.object l) w).perform σ).2.get? k = σ.get? k) ∧
      ((append (.object l) w).perform σ).2.carried = σ.carried := by
  rw [append, Action.perform_bind_of_ok _ (Action.perform_cell? _ _)]
  split
  · next k items heq _ =>
    obtain rfl := Value.object.inj heq
    exact ⟨fun k hk => get?_update_ne σ _ (Ne.symm hk), rfl⟩
  · next k bs heq _ =>
    obtain rfl := Value.object.inj heq
    refine (isReading_byteOf w).bind_leaves (P := fun τ => (∀ k, k ≠ l → τ.get? k = σ.get? k) ∧
      τ.carried = σ.carried) ⟨fun _ _ => rfl, rfl⟩ fun b _ => ?_
    exact ⟨fun k hk => get?_update_ne σ _ (Ne.symm hk), rfl⟩
  · rw [Action.isReading_noAttribute]
    exact ⟨fun _ _ => rfl, rfl⟩

/-- What was there is preserved when a newer object is appended to. -/
theorem Store.Extends.preserves_append (h : σ.Extends ρ) {j : Loc} (hj : σ.size ≤ j) (w v : Value) :
    σ.Preserves ((Attribute.append (.object j) w).perform ρ).2 v := by
  obtain ⟨hget, hcarried⟩ := Attribute.append_get? j w ρ
  have hspared := h.spares (P := σ.Holdings v) fun k hk => hk.1
  refine preserves_of_get? (fun k hk => ?_) fun k hk name => ?_
  · rw [hget k (Nat.ne_of_lt (Nat.lt_of_lt_of_le hk.1 hj)), hspared.get?_eq k hk]
  · rw [← hspared.carried?_eq k hk name]
    simp only [carried?, hcarried]

namespace Anatomy.Rebound

/-- To append to the file of one new label changes the file of no other. -/
theorem view_file_append (h : a.Rebound σ fileId τ b) (hfile : σ.view fileId = some file)
    (hnative : file.IsNative) (hτρ : τ.Grows ρ) {j : Loc} (hj : σ.size ≤ j) (w : Value)
    {r : Part} (hr : r ∈ b.parts) (hne : r.fileId ≠ .object j) :
    ((Attribute.append (.object j) w).perform ρ).2.view r.fileId = some file := by
  refine view_of_shown (fun k c hk hc => ?_) (h.view_file hfile hnative hr)
  have hkj : k ≠ j := by
    rintro rfl
    rcases h.cases_of_reaches_file hfile hnative hr hk.reaches_of_shown with ⟨heq, -⟩ | hold
    · exact hne heq
    · exact Nat.not_lt.2 hj (lt_size_of_isNative hfile hnative hold)
  rw [(Attribute.append_get? j w ρ).1 k hkj, hτρ.get? hc]
  exact .same _

end Anatomy.Rebound

/-! ## Both sides -/

namespace Builder

/-- **Separation.** Rebinding makes a diagnostic of objects that are all different and all new. However
either diagnostic is edited afterwards, with values that are clear of the other, the other one stays
what it was. And if the file is an object, each label gets a copy of its own that equals it; whatever
is appended to one of the copies, all that there was before and the other copies show what they did. -/
theorem withFile_separate {d : Loc} {fields : DiagnosticFields}
    (hd : σ.get? d = some (.diagnostic fields)) (hsound : σ.IsSound (.object d))
    (hfile : σ.view fileId = some file) (hnative : file.IsNative)
    (hapart : ∀ k, σ.Reaches fileId k → ¬ σ.Owns (.object d) k) :
    (withFile (.object d) fileId).Returns σ fun n τ => ∃ a b : Anatomy,
      (a.diagnostic = d ∧ a.IsIn σ ∧ n = .object b.diagnostic ∧ b.IsIn τ) ∧
      (b.parts.length = a.parts.length ∧ b.objects.Nodup ∧
        ∀ k ∈ b.objects, k ∉ a.objects ∧ σ.get? k = none) ∧
      (∀ ρ, τ.Edited b.diagnostic (σ.Holdings (.object d)) ρ → σ.Preserves ρ (.object d)) ∧
      (∀ ρ, τ.Edited d (τ.Holdings n) ρ → τ.Preserves ρ n) ∧
      ∀ l, fileId = .object l → (b.parts.map Part.fileId).Nodup ∧
        ∀ q ∈ b.parts, ∃ j, q.fileId = .object j ∧ j ≠ l ∧ τ.view q.fileId = some file ∧
          file.equal file ∧ ∀ ρ w, τ.Extends ρ →
            let ρ' := ((Attribute.append q.fileId w).perform ρ).2
            (∀ v, σ.Preserves ρ' v) ∧
              ∀ r ∈ b.parts, r.fileId ≠ q.fileId → ρ'.view r.fileId = some file := by
  obtain ⟨a, rfl, ha⟩ := hsound.exists_anatomy hd
  refine (withFile_rebound ha (isCopyable_of_view hfile hnative)).imp ?_
  rintro _ τ ⟨b, rfl, hb⟩
  have hnew : ∀ k ∈ b.objects, ¬ k < σ.size :=
    fun k hk => Nat.not_lt.2 (hb.le_of_mem_objects hk)
  refine ⟨a, b, ⟨rfl, ha, rfl, hb.isIn⟩, ⟨hb.parts.length_eq.symm, ?_, fun k hk => ⟨?_, ?_⟩⟩,
    fun ρ hρ => ?_, fun ρ hρ => ?_, ?_⟩
  · exact b.objects_sublist_made.nodup (hb.made.ordered.imp Nat.ne_of_lt)
  · exact fun hold => hnew k hk (ha.lt_size hold)
  · exact List.getElem?_eq_none (Nat.le_of_not_lt (hnew k hk))
  · -- the new objects are clear of all that was there
    refine hb.grown.preserves (hρ.spares (fun k hk => ?_) ?_)
    · exact Nat.lt_of_lt_of_le hk.1 hb.grown.grows.size_le
    · exact hb.isIn.isClear fun k hk hold => hnew k hk hold.1
  · -- the old objects are clear of the new ones and of what the file reaches
    refine (Extends.refl τ).preserves (hρ.spares (fun k hk => hk.1) ?_)
    refine (ha.grows hb.grown.grows).isClear fun k hk hnew => ?_
    rcases hb.reaches hfile hnative hnew.2 with hle | hreached
    · exact Nat.not_lt.2 hle (ha.lt_size hk)
    · exact hapart k hreached (ha.owns hk)
  · rintro l rfl
    refine ⟨hb.nodup_files, fun q hq => ?_⟩
    obtain ⟨j, hj, -, hle, -⟩ := hb.exists_copy hq
    refine ⟨j, hj, ?_, hb.view_file hfile hnative hq, hnative.equal_self, fun ρ w hρ => ⟨?_, ?_⟩⟩
    · rintro rfl
      exact Nat.not_lt.2 hle (lt_size_of_isNative hfile hnative (.here j))
    · rw [hj]
      exact (hb.grown.trans hρ).preserves_append hle w
    · rw [hj]
      exact fun r hr hne => hb.view_file_append hfile hnative hρ.grows hle w hr hne

/-- A diagnostic that has the same label twice, and a list for a file. -/
def sharedStore : Store :=
  ⟨[.byteRange ⟨.int 0, .int 1⟩, .label ⟨.style .primary, .none, .object 0, .text ""⟩,
    .list [.object 1, .object 1], .list [.text "note"],
    .diagnostic ⟨.severity .error, .none, .text "message", .object 2, .object 3⟩, .list []], 0, [], {}⟩

/-- The anatomy of that diagnostic. -/
def sharedAnatomy : Anatomy :=
  let p : Part := ⟨1, 0, .primary, .none, ⟨0, 1⟩, ""⟩
  ⟨4, 2, 3, .error, none, "message", [p, p], [.text "note"]⟩

theorem sharedAnatomy_isIn : sharedAnatomy.IsIn sharedStore where
  diagnostic := rfl
  labelList := rfl
  noteList := rfl
  parts := by
    intro p hp
    have hp : p = ⟨1, 0, .primary, .none, ⟨0, 1⟩, ""⟩ := by simpa [sharedAnatomy] using hp
    subst hp
    exact ⟨rfl, rfl⟩
  notes := List.forall_mem_singleton.2 rfl

/-- Though both labels are one, the new ones are not, and each has a list of its own for a file. -/
theorem withFile_separate_shared :
    (withFile (.object 4) (.object 5)).Returns sharedStore fun n τ => ∃ a b : Anatomy,
      a.IsIn sharedStore ∧ n = .object b.diagnostic ∧ b.parts.length = a.parts.length ∧
      b.objects.Nodup ∧ (b.parts.map Part.fileId).Nodup ∧
      ∀ ρ, τ.Edited b.diagnostic (sharedStore.Holdings (.object 4)) ρ →
        sharedStore.Preserves ρ (.object 4) := by
  have hfile : sharedStore.view (.object 5) = some (.list []) := view_iff_unfolds.2 (.list rfl .nil)
  have hapart : ∀ k, sharedStore.Reaches (.object 5) k → ¬ sharedStore.Owns (.object 4) k := by
    rintro k (_ | ⟨cell, mem, -⟩) howned
    · have hmem := sharedAnatomy_isIn.mem_objects howned
      simp [sharedAnatomy, Anatomy.objects] at hmem
    · cases cell
      cases mem
  refine (withFile_separate rfl sharedAnatomy_isIn.isSound hfile (.list (List.forall_mem_nil _))
    hapart).imp ?_
  rintro _ τ ⟨a, b, ⟨-, ha, rfl, -⟩, ⟨hlength, hnodup, -⟩, hold, -, hfiles⟩
  exact ⟨a, b, ha, rfl, hlength, hnodup, (hfiles 5 rfl).1, hold⟩

end Builder

end Diagnostics
