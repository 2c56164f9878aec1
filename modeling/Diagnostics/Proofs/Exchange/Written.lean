import Diagnostics.Proofs.Exchange.Content
import Diagnostics.Proofs.Store.View

/-!
# What is written

Writing is looking at a value: it leaves the store as it was. Where a value shows what a diagnostic
is declared to hold, the text of `dump` is the diagnostic's JSON in the layout of a text
(`dump_of_view`), the plain data of `toJson` is that JSON itself (`toJson_of_view`), and the text of
`dumpAll` is the list of them in the layout of a list (`dumpAll_of_view`). A code that is missing is
looked for in the value by the first and in finished data by the second; the result is the same.
-/

namespace Diagnostics

open Diagnostics.Action

variable {σ : Store} {v : Value} {c : DiagnosticContent}

/-! ## The cells behind a diagnostic -/

namespace Store

/-- Only a text shows as one. -/
theorem eq_text_of_view {s : String} (h : σ.view v = some (.text s)) : v = .text s := by
  cases unfolds_of_view h
  rfl

/-- Only a list shows as one, and its items show as the items of what it shows. -/
theorem list_of_view {ds : List Data} (h : σ.view v = some (.list ds)) :
    ∃ l vs, v = .object l ∧ σ.get? l = some (.list vs) ∧
      List.Forall₂ (fun v d => σ.view v = some d) vs ds := by
  cases unfolds_of_view h with
  | list cell items => exact ⟨_, _, rfl, cell, items⟩

/-- The cells of a diagnostic that holds what it is declared for: its own, and those of its
lists. -/
theorem diagnostic_of_view (h : σ.view v = some c.data) :
    ∃ l k m ls ns, v = .object l ∧
      σ.get? l = some (.diagnostic ⟨.severity c.severity, (c.code.map Value.text).getD .none,
        .text c.message, .object k, .object m⟩) ∧
      (σ.get? k = some (.list ls) ∧ ls.length = c.labels.length) ∧
      (σ.get? m = some (.list ns) ∧ ns.length = c.notes.length) := by
  cases unfolds_of_view h with
  | @diagnostic l f _ _ _ _ _ cell severity code message labels notes =>
    -- texts are told by what they show, and lists are objects of their own
    obtain ⟨level, code', message', labels', notes'⟩ := f
    cases unfolds_of_view severity
    obtain rfl := eq_text_of_view message
    obtain ⟨k, ls, rfl, hk, hls⟩ := list_of_view labels
    obtain ⟨m, ns, rfl, hm, hns⟩ := list_of_view notes
    have hcode : code' = (c.code.map Value.text).getD .none := by
      rcases hc : c.code with _ | s <;> rw [hc] at code
      · cases unfolds_of_view code
        rfl
      · exact eq_text_of_view code
    refine ⟨l, k, m, ls, ns, rfl, hcode ▸ cell, ⟨hk, ?_⟩, hm, ?_⟩
    · rw [hls.length_eq, List.length_map]
    · rw [hns.length_eq, List.length_map]

end Store

namespace Exchange

/-- A field of a record is found under its name. -/
theorem perform_stored {l : Loc} {cell : Cell} {fields : List (String × Value)} {name : String}
    {w : Value} (hl : σ.get? l = some cell) (hf : cell.fields? = some fields)
    (hw : fields.lookup name = some w) :
    (Attribute.stored (.object l) name).perform σ = (.ok w, σ) := by
  have hown : Attribute.own? σ (.object l) name = some w := by
    cases cell <;> simp [Cell.fields?] at hf <;>
      simp [Attribute.own?, Store.cell?, hl, Cell.fields?, hf, hw]
  simp [Attribute.stored, perform, ExceptT.run, StateT.run, Attribute.stored?, hown]

/-- A list has as many parts as items. -/
theorem perform_length_list {l : Loc} {vs : List Value} (hl : σ.get? l = some (.list vs)) :
    (length (.object l)).perform σ = (.ok vs.length, σ) := by
  simp [length, perform_bind, Store.cell?, hl, Value.asText?, Cell.items?]

/-- A list gives its items, and nothing changes. -/
theorem perform_elements_list {l : Loc} {vs : List Value} (hl : σ.get? l = some (.list vs)) :
    (elements (.object l)).perform σ = (.ok vs, σ) := by
  simp [elements, perform, ExceptT.run, StateT.run, Store.elements?, hl, Value.asText?,
    Cell.items?]

/-- All items of a list can be taken, and nothing changes. -/
theorem perform_takeAll_list {l : Loc} {vs : List Value} (hl : σ.get? l = some (.list vs)) :
    (takeAll (.object l)).perform σ = (.ok vs, σ) := by
  rw [takeAll, perform_bind_of_ok _ (perform_elements_list hl),
    perform_bind_of_ok _ (perform_leave _ _ _)]
  simp [Store.leave, Store.cell?, hl]

/-- A diagnostic is a record and can be written. -/
theorem perform_writable {l : Loc} {f : DiagnosticFields} (operation : String)
    (hl : σ.get? l = some (.diagnostic f)) :
    (writable (.object l) operation).perform σ = (.ok (), σ) := by
  simp [writable, perform_bind, Store.cell?, hl, Cell.fields?]

/-- The word of a level is found with the level. -/
theorem perform_levelWord (s : Severity) :
    (levelWord (.severity s)).perform σ = (.ok s.word, σ) := by
  rfl

/-- The summary of a diagnostic, from its cell and those of its lists. -/
theorem summary_of_cells {l k m : Loc} {s : Severity} {code message : Value} {ls ns : List Value}
    (hl : σ.get? l = some (.diagnostic ⟨.severity s, code, message, .object k, .object m⟩))
    (hk : σ.get? k = some (.list ls)) (hm : σ.get? m = some (.list ns)) :
    (summary (.object l)).perform σ = (.ok (s.word, ls.length, ns.length), σ) := by
  have stored : ∀ name w, _ → (Attribute.stored (.object l) name).perform σ = (.ok w, σ) :=
    fun name w hw => perform_stored hl rfl hw
  rw [summary, perform_bind_of_ok _ (stored "severity" _ rfl),
    perform_bind_of_ok _ (perform_levelWord s), perform_bind_of_ok _ (stored "labels" _ rfl),
    perform_bind_of_ok _ (perform_length_list hk), perform_bind_of_ok _ (stored "notes" _ rfl),
    perform_bind_of_ok _ (perform_length_list hm)]
  rfl

/-- The summary of a diagnostic that holds what it is declared for. -/
theorem summary_of_view (h : σ.view v = some c.data) :
    (summary v).perform σ = (.ok (c.severity.word, c.labels.length, c.notes.length), σ) := by
  obtain ⟨l, k, m, ls, ns, rfl, hl, ⟨hk, hls⟩, hm, hns⟩ := Store.diagnostic_of_view h
  rw [summary_of_cells hl hk hm, hls, hns]

/-! ## One diagnostic -/

/-- **Plain data.** The plain data of a diagnostic is its JSON. -/
theorem toJson_of_hasRoom (h : σ.view v = some c.data) (hportable : c.IsPortable)
    (hroom : c.HasRoom) (config : Config) :
    (toJson config v).perform σ = (.ok (c.json config.omitMissingCode), σ) := by
  obtain ⟨l, k, m, ls, ns, rfl, hl, -⟩ := Store.diagnostic_of_view h
  rw [toJson, perform_bind_of_ok _ (perform_writable _ hl), perform_bind_of_ok _ (perform_view _ h),
    DiagnosticContent.form_data hportable hroom]
  rcases config with ⟨indent?, _ | _⟩
  · rfl
  · simp only [if_true, DiagnosticContent.omitMissingCode_json, perform_ofExcept]

/-- The plain data of a diagnostic is the JSON of what it shows. -/
theorem toJson_of_view (h : σ.view v = some c.data) (hportable : c.IsPortable)
    (hroom : ∀ l ∈ c.labels, l.fileId.json.nesting + 2 ≤ nestingLimit) (config : Config) :
    (toJson config v).perform σ = (.ok (c.json config.omitMissingCode), σ) :=
  toJson_of_hasRoom h hportable (hportable.hasRoom hroom) config

/-- The text of a diagnostic is its JSON in the layout of a text. -/
theorem dumpText_of_view (h : σ.view v = some c.data) (hportable : c.IsPortable)
    (hroom : ∀ l ∈ c.labels, l.fileId.json.nesting + 2 ≤ nestingLimit) (config : Config)
    {n : Option Nat} (hindent : textIndent config.indent? = .ok n) :
    (dumpText config v).perform σ =
      (.ok (Json.render (textLayout n) (c.json config.omitMissingCode)), σ) := by
  have hform := DiagnosticContent.form_data hportable (hportable.hasRoom hroom)
  obtain ⟨l, k, m, ls, ns, rfl, hl, -⟩ := Store.diagnostic_of_view h
  -- the code is looked for first, and what follows is the same either way
  have hlook : ∀ render : Option Nat → Data → Action String,
      (writable (.object l) "model_dump_json" >>= fun _ =>
        Action.ofExcept (textIndent config.indent?) >>= fun indent? =>
          Action.view (.object l) >>= render indent?).perform σ = (render n c.data).perform σ := by
    intro render
    rw [perform_bind_of_ok _ (perform_writable _ hl), hindent,
      perform_bind_of_ok _ (perform_ofExcept _ _), perform_bind_of_ok _ (perform_view _ h)]
  rcases config with ⟨indent?, _ | _⟩
  · refine (hlook _).trans ?_
    rw [hform]
    rfl
  · have hcode : (Attribute.stored (.object l) "code").perform σ = _ := perform_stored hl rfl rfl
    rw [dumpText, if_pos rfl, perform_bind_of_ok _ hcode]
    refine (hlook _).trans ?_
    rw [hform]
    rcases hc : c.code with _ | s
    · simp only [Option.map_none, Option.getD_none, beq_self_eq_true, if_true,
        DiagnosticContent.withoutKey_json hc, perform_pure]
    · rw [← DiagnosticContent.json_of_code (c := c) (by simp [hc])]
      rfl

/-- **One diagnostic.** Writing succeeds, leaves the store as it was and logs one entry. -/
theorem dump_of_view (h : σ.view v = some c.data) (hportable : c.IsPortable)
    (hroom : ∀ l ∈ c.labels, l.fileId.json.nesting + 2 ≤ nestingLimit) (config : Config)
    {n : Option Nat} (hindent : textIndent config.indent? = .ok n) :
    dump config v σ =
      let text := Json.render (textLayout n) (c.json config.omitMissingCode)
      ⟨.ok text, σ,
        [.serialized c.severity.word c.labels.length c.notes.length text.length]⟩ := by
  have htext := dumpText_of_view h hportable hroom config hindent
  rw [dump, perform_bind_of_ok _ htext, perform_bind_of_ok _ (summary_of_view h)]
  rfl

/-! ## Lists of diagnostics -/

/-- The plain data of several diagnostics is made for one after the other. -/
theorem toJsons_of_views {vs : List Value} {cs : List DiagnosticContent}
    (h : List.Forall₂ (fun v c => σ.view v = some c.data) vs cs)
    (hportable : ∀ c ∈ cs, c.IsPortable)
    (hroom : ∀ c ∈ cs, ∀ l ∈ c.labels, l.fileId.json.nesting + 2 ≤ nestingLimit)
    (config : Config) :
    (toJsons config vs).perform σ =
      (.ok (cs.map (DiagnosticContent.json config.omitMissingCode)), σ) := by
  -- nothing changes on the way, so every diagnostic is looked at in the same store
  induction h with
  | nil => rfl
  | @cons v c vs cs hv _ ih =>
    have hjson := toJson_of_view hv (hportable c List.mem_cons_self)
      (hroom c List.mem_cons_self) config
    have hmore := ih (fun x hx => hportable x (List.mem_cons_of_mem _ hx))
      (fun x hx => hroom x (List.mem_cons_of_mem _ hx))
    rw [toJsons, perform_bind_of_ok _ hjson, perform_bind_of_ok _ hmore]
    rfl

/-- **Lists.** Writing a list of diagnostics succeeds, leaves the store as it was and logs one
entry. -/
theorem dumpAll_of_view {l : Loc} {vs : List Value} {cs : List DiagnosticContent}
    (hl : σ.get? l = some (.list vs))
    (h : List.Forall₂ (fun v c => σ.view v = some c.data) vs cs)
    (hportable : ∀ c ∈ cs, c.IsPortable)
    (hroom : ∀ c ∈ cs, ∀ l ∈ c.labels, l.fileId.json.nesting + 2 ≤ nestingLimit)
    (config : Config) {n : Option Nat} (hindent : listIndent config.indent? = .ok n)
    (hfit : (Json.array (cs.map (DiagnosticContent.json config.omitMissingCode))).integersFit
      (Json.hasFewDigits digitLimit) = true) :
    dumpAll config (.object l) σ =
      ⟨.ok (Json.render (listLayout n)
        (.array (cs.map (DiagnosticContent.json config.omitMissingCode)))), σ,
        [.serializing cs.length]⟩ := by
  have htake : (takeAll (.object l)).perform σ = (.ok vs, σ) := perform_takeAll_list hl
  rw [dumpAll, perform_bind_of_ok _ htake, toJsons_of_views h hportable hroom config]
  simp only [listText, hindent, bind, Except.bind, hfit, if_true, List.length_map]

end Exchange

end Diagnostics
