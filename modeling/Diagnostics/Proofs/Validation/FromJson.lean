import Diagnostics.Proofs.Exchange.Content
import Diagnostics.Proofs.Exchange.Made
import Diagnostics.Proofs.Validation.Parts

/-!
# Checks of what is made of JSON

The value that is made of the JSON of a diagnostic is valid, and what is drafted from it is what
the diagnostic holds (`diagnostic_of_shows`), whether the code was written or left out. A draft
holds the files of labels as values, so `IsDraft` is about a store.
-/

namespace Diagnostics

variable {σ τ : Store}

/-! ## Drafts -/

/-- Whether a draft is to hold what a label holds. -/
def LabelContent.IsDraft (σ : Store) (c : LabelContent) (d : Draft LabelDraft) : Prop :=
  ∃ file, d = .fresh ⟨c.style, file, .fresh c.range, c.message⟩ ∧ σ.view file = some c.fileId

/-- Whether a draft is to hold what a diagnostic holds. -/
def DiagnosticContent.IsDraft (σ : Store) (c : DiagnosticContent) (d : Draft DiagnosticDraft) :
    Prop :=
  ∃ labels, d = .fresh ⟨c.severity, c.code, c.message, labels, c.notes⟩ ∧
    List.Forall₂ (LabelContent.IsDraft σ) c.labels labels

theorem LabelContent.IsDraft.mono (hσ : σ.Grows τ) {c : LabelContent} {d : Draft LabelDraft}
    (h : c.IsDraft σ d) : c.IsDraft τ d := by
  obtain ⟨file, hd, hfile⟩ := h
  exact ⟨file, hd, Store.view_of_grows hσ hfile⟩

theorem DiagnosticContent.IsDraft.mono (hσ : σ.Grows τ) {c : DiagnosticContent}
    {d : Draft DiagnosticDraft} (h : c.IsDraft σ d) : c.IsDraft τ d := by
  obtain ⟨labels, hd, hlabels⟩ := h
  exact ⟨labels, hd, hlabels.imp fun _ _ => LabelContent.IsDraft.mono hσ⟩

/-! ## Parts of values -/

namespace Store

variable {ws : List (String × Value)} {es : List (String × Json)}

/-- The value under a key shows the JSON under it, if there is any. -/
theorem lookup_shows (h : List.Forall₂ (fun w e => w.1 = e.1 ∧ σ.Shows w.2 e.2) ws es)
    (key : String) : Option.Rel σ.Shows (ws.lookup key) (es.lookup key) := by
  induction h with
  | nil => exact .none
  | @cons w e ws es hwe _ ih =>
    obtain ⟨k, v⟩ := w
    obtain ⟨k', j⟩ := e
    obtain ⟨rfl, hshows⟩ := hwe
    rw [List.lookup_cons, List.lookup_cons]
    cases key == k with
    | true => exact .some hshows
    | false => exact ih

theorem exists_lookup_of_shows (h : List.Forall₂ (fun w e => w.1 = e.1 ∧ σ.Shows w.2 e.2) ws es)
    (key : String) {j : Json} (hj : es.lookup key = some j) :
    ∃ v, ws.lookup key = some v ∧ σ.Shows v j := by
  have hrel := lookup_shows h key
  rw [hj] at hrel
  generalize ws.lookup key = found at hrel
  cases hrel with
  | @some v _ hshows => exact ⟨v, rfl, hshows⟩

theorem lookup_eq_none_of_shows (h : List.Forall₂ (fun w e => w.1 = e.1 ∧ σ.Shows w.2 e.2) ws es)
    {key : String} (hnone : es.lookup key = none) : ws.lookup key = none := by
  have hrel := lookup_shows h key
  rw [hnone] at hrel
  generalize ws.lookup key = found at hrel
  cases hrel
  rfl

/-- What shows the JSON of native data shows the data. -/
theorem Shows.view_eq {v : Value} {d : Data} (h : σ.Shows v d.json) (hd : d.IsNative) :
    σ.view v = some d := by
  obtain ⟨x, hv, hx⟩ := h
  rwa [hd.eq_of_gives hx]

end Store

namespace Validation

variable {source : Source} {v : Value} {l : Loc} {ws : List (String × Value)}

/-- What is a table is checked as the fields of a new record. -/
theorem record_of_table {α : Type} {name : String} {isRecord : Cell → Bool}
    (fields : List (String × Value) → Check α) (hl : σ.get? l = some (.table ws))
    (hr : isRecord (.table ws) = false) :
    record source name isRecord fields σ (.object l) = (fields ws).map .fresh := by
  simp only [record, Store.cell?, hl, hr, Bool.false_eq_true, if_false]

/-- A list is checked item by item. -/
theorem listOf_of_list {α : Type} (check : Store → Value → Check α) {vs : List Value}
    (hl : σ.get? l = some (.list vs)) :
    listOf source check σ (.object l) = Check.each (check σ) 0 vs := by
  simp only [listOf, listElements?, Store.cell?, hl, Store.elements?, Value.asText?, Cell.items?]

/-- Items that are valid each for itself are valid together. -/
theorem each_of_shows {α β : Type} {check : Value → Check β} {P : α → β → Prop} {f : α → Json}
    {vs : List Value} {as : List α} (hvs : List.Forall₂ σ.Shows vs (as.map f))
    (h : ∀ a ∈ as, ∀ v, σ.Shows v (f a) → ∃ b, check v = .valid b ∧ P a b) (i : Nat) :
    ∃ bs, Check.each check i vs = .valid bs ∧ List.Forall₂ P as bs := by
  have hshown := (List.forall₂_and_left _ _).2 ⟨h, (List.forall₂_map_right_iff.1 hvs).flip⟩
  have hvalid : List.Forall₂ (fun v a => ∃ b, check v = .valid b ∧ P a b) vs as :=
    (hshown.imp fun _ v ha => ha.1 v ha.2).flip
  obtain ⟨bs, hbs, hP⟩ := forall₂_exists_iff.1 hvalid
  exact ⟨bs, Check.each_valid hbs i, hP⟩

theorem offset_natCast (n : Nat) : offset (.int n) = .valid n := by
  rw [offset, natural, if_neg (Int.not_lt.2 (Int.natCast_nonneg n)), Int.toNat_natCast]

theorem severity_word (s : Severity) : severity σ (.text s.word) = .valid s := by
  simp [severity, word?, Value.asText?, Severity.ofWord?_word]

theorem style_word (s : LabelStyle) : style σ (.text s.word) = .valid s := by
  simp [style, word?, Value.asText?, LabelStyle.ofWord?_word]

theorem text_text (s : String) : text σ (.text s) = .valid s := rfl

/-- Looking at what is made of JSON uses nothing up. -/
theorem spend_of_shows {α : Type} (check : Store → Value → Check α) {j : Json} (h : σ.Shows v j) :
    spend check σ v = σ := by
  obtain ⟨d, hv, hd⟩ := h
  unfold spend listElements?
  -- only lists and tables are objects here, and neither is a one-shot sequence
  cases hd with
  | array =>
    cases Store.unfolds_of_view hv with
    | list cell =>
      simp [Store.cell?, cell, Store.leave, Store.elements?, Value.asText?, Cell.items?]
  | object =>
    cases Store.unfolds_of_view hv with
    | table cell => simp [Store.cell?, cell]
  | _ =>
    cases Store.unfolds_of_view hv
    rfl

/-! ## Diagnostics -/

variable (source)

/-- What shows the JSON of a byte range is a valid range. -/
theorem labelRange_of_shows {r : ByteRange} (h : σ.Shows v r.json) :
    labelRange source σ v = .valid (.fresh r) := by
  obtain ⟨l, ws, rfl, hl, hws⟩ := h.exists_table
  obtain ⟨start, hstart, hs⟩ := Store.exists_lookup_of_shows hws "start" rfl
  obtain ⟨stop, hstop, ht⟩ := Store.exists_lookup_of_shows hws "end" rfl
  obtain rfl := hs.eq_int
  obtain rfl := ht.eq_int
  have hfields : byteRangeFields ws = .valid r := by
    rw [byteRangeFields, required_valid hstart (offset_natCast _),
      required_valid hstop (offset_natCast _)]
    rfl
  simp only [labelRange, Store.cell?, hl]
  rw [byteRange, record_of_table _ hl rfl, hfields]
  rfl

/-- What shows the JSON of a label is a valid label. -/
theorem label_of_shows {c : LabelContent} (hc : c.fileId.IsNative) (h : σ.Shows v c.json) :
    ∃ d, label source σ v = .valid d ∧ c.IsDraft σ d := by
  obtain ⟨l, ws, rfl, hl, hws⟩ := h.exists_table
  obtain ⟨how, hhow, hshow⟩ := Store.exists_lookup_of_shows hws "style" rfl
  obtain ⟨file, hfile, hf⟩ := Store.exists_lookup_of_shows hws "file_id" rfl
  obtain ⟨region, hregion, hr⟩ := Store.exists_lookup_of_shows hws "range" rfl
  obtain ⟨message, hmessage, hm⟩ := Store.exists_lookup_of_shows hws "message" rfl
  obtain rfl := hshow.eq_text
  obtain rfl := hm.eq_text
  refine ⟨.fresh ⟨c.style, file, .fresh c.range, c.message⟩, ?_, file, rfl, hf.view_eq hc⟩
  rw [label, record_of_table _ hl rfl, labelFields_of_valid hhow (style_word c.style) hfile hregion
    (labelRange_of_shows source hr) (optional_valid hmessage (text_text c.message))]
  rfl

/-- What shows the JSON of a code, or the lack of it, is a valid code. -/
theorem code_of_shows {c : DiagnosticContent} {omitMissingCode : Bool}
    (hws : List.Forall₂ (fun w e => w.1 = e.1 ∧ σ.Shows w.2 e.2) ws (c.entries omitMissingCode)) :
    optional "code" none (textOrNone σ) ws = .valid c.code := by
  rcases hcode : c.code with _ | code
  -- a code that is missing was either left out or written as null
  · cases omitMissingCode with
    | true =>
      have hnone := DiagnosticContent.lookup_code_eq_none_iff.2 ⟨rfl, hcode⟩
      rw [optional_default (Store.lookup_eq_none_of_shows hws hnone)]
    | false =>
      have hnull : (c.entries false).lookup "code" = some .null := by
        simp [DiagnosticContent.entries, DiagnosticContent.codeEntry, hcode, List.lookup_cons]
      obtain ⟨w, hw, hshows⟩ := Store.exists_lookup_of_shows hws "code" hnull
      obtain rfl := hshows.eq_none
      exact optional_valid hw rfl
  · have htext : (c.entries omitMissingCode).lookup "code" = some (.text code) := by
      simp [DiagnosticContent.entries, DiagnosticContent.codeEntry, hcode, List.lookup_cons]
    obtain ⟨w, hw, hshows⟩ := Store.exists_lookup_of_shows hws "code" htext
    obtain rfl := hshows.eq_text
    exact optional_valid hw rfl

/-- **Diagnostics.** What shows the JSON of a diagnostic is valid, and drafts what it holds. -/
theorem diagnostic_of_shows {c : DiagnosticContent} {omitMissingCode : Bool} (hc : c.IsNative)
    (h : σ.Shows v (c.json omitMissingCode)) :
    ∃ d, diagnostic source σ v = .valid d ∧ c.IsDraft σ d := by
  obtain ⟨l, ws, rfl, hl, hws⟩ := h.exists_table
  have lookup : ∀ key j, (key == "code") = false → _ → ∃ v, ws.lookup key = some v ∧ σ.Shows v j :=
    fun key j hkey hj => Store.exists_lookup_of_shows hws key
      ((DiagnosticContent.lookup_entries hkey).trans hj)
  obtain ⟨level, hlevel, hs⟩ := lookup "severity" _ rfl rfl
  obtain ⟨message, hmessage, hm⟩ := lookup "message" _ rfl rfl
  obtain ⟨labels, hlabels, hls⟩ := lookup "labels" _ rfl rfl
  obtain ⟨notes, hnotes, hns⟩ := lookup "notes" _ rfl rfl
  obtain rfl := hs.eq_text
  obtain rfl := hm.eq_text
  -- the notes are looked at after the labels, which have not been used up by then
  have hspend : spendLabels source σ ws = σ := by
    rw [spendLabels, hlabels]
    exact spend_of_shows _ hls
  obtain ⟨k, vs, rfl, hk, hvs⟩ := hls.exists_list
  obtain ⟨m, us, rfl, hn, hus⟩ := hns.exists_list
  obtain ⟨ds, hvalid, hdrafts⟩ := each_of_shows hvs
    (fun x hx _ => label_of_shows source (hc x hx)) 0
  have hds : Validation.labels source σ ws = .valid ds :=
    optional_valid hlabels ((listOf_of_list _ hk).trans hvalid)
  have hlines : List.Forall₂ (fun v s => text σ v = .valid s) us c.notes := by
    refine (List.forall₂_map_right_iff.1 hus).imp ?_
    intro u s hu
    rw [hu.eq_text, text_text]
  have hss : Validation.notes source σ ws = .valid c.notes :=
    optional_valid hnotes ((listOf_of_list _ hn).trans (Check.each_valid hlines 0))
  refine ⟨.fresh ⟨c.severity, c.code, c.message, ds, c.notes⟩, ?_, ds, rfl, hdrafts⟩
  rw [diagnostic, record_of_table _ hl rfl, diagnosticFields_of_valid hlevel
    (severity_word c.severity) (code_of_shows hws) (optional_valid hmessage (text_text c.message))
    hds (hspend.symm ▸ hss)]
  rfl

/-- **Lists.** What shows the list of the JSON of diagnostics is valid, and drafts what they
hold. -/
theorem diagnostics_of_shows {cs : List DiagnosticContent} {omitMissingCode : Bool}
    (hcs : ∀ c ∈ cs, c.IsNative)
    (h : σ.Shows v (.array (cs.map (DiagnosticContent.json omitMissingCode)))) :
    ∃ ds, listOf source (diagnostic source) σ v = .valid ds ∧
      List.Forall₂ (DiagnosticContent.IsDraft σ) cs ds := by
  obtain ⟨l, vs, rfl, hl, hvs⟩ := h.exists_list
  obtain ⟨ds, hvalid, hdrafts⟩ := each_of_shows hvs
    (fun x hx _ => diagnostic_of_shows source (hcs x hx)) 0
  exact ⟨ds, (listOf_of_list _ hl).trans hvalid, hdrafts⟩

end Validation

end Diagnostics
