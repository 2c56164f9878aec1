import Mathlib.Algebra.Group.Int.Defs
import Mathlib.Algebra.Group.Nat.Defs
import Diagnostics.Proofs.Exchange.Written
import Diagnostics.Proofs.Json.ReadBack
import Diagnostics.Proofs.Validation.Built

/-!
# Diagnostics are read as they were written

The text that is written for a diagnostic is read back, into any store, as a diagnostic that shows
the same (`load_dump`), and so is the text of a list of diagnostics (`loadAll_dumpAll`), though that
is laid out by other rules. Both texts and the plain data say the same (`encodings_agree`).

What is written has to be within the limits of the reader: its collections not too deep inside each
other, and no integer with too many characters. The files of labels have to be native to be read back,
and portable to be written.
-/

namespace Diagnostics.Exchange

variable {c : DiagnosticContent} {cs : List DiagnosticContent} {omitMissingCode : Bool}

/-! ## Reading -/

/-- What is read from the JSON of a diagnostic is the diagnostic. -/
theorem load_of_read (hc : c.IsNative) {text : String}
    (h : Json.read .standard text = .ok (c.json omitMissingCode)) (σ : Store) :
    ∃ v τ, load (.text text) σ =
        ⟨.ok v, τ, [.loaded c.severity.word c.labels.length c.notes.length]⟩ ∧
      σ.Grows τ ∧ τ.view v = some c.data := by
  obtain ⟨hgrows, hshows⟩ := ofJson_shows σ (c.json omitMissingCode)
  obtain ⟨d, hvalid, hdraft⟩ := Validation.diagnostic_of_shows .json hc hshows
  obtain ⟨hbuilt, hview⟩ := Store.newDiagnostic_of_isDraft hdraft
  refine ⟨_, _, ?_, hgrows.trans hbuilt, hview⟩
  simp only [load, checkText_of_read _ h, hvalid, summary_of_view hview]

/-- What is read from the list of the JSON of diagnostics is the list of them. -/
theorem loadAll_of_read (hcs : ∀ c ∈ cs, c.IsNative) {text : String}
    (h : Json.read .standard text = .ok (.array (cs.map (DiagnosticContent.json omitMissingCode))))
    (σ : Store) :
    ∃ v τ, loadAll (.text text) σ = ⟨.ok v, τ, [.loadedAll cs.length]⟩ ∧
      σ.Grows τ ∧ τ.view v = some (.list (cs.map DiagnosticContent.data)) := by
  obtain ⟨hgrows, hshows⟩ :=
    ofJson_shows σ (.array (cs.map (DiagnosticContent.json omitMissingCode)))
  obtain ⟨ds, hvalid, hdrafts⟩ := Validation.diagnostics_of_shows .json hcs hshows
  obtain ⟨hlength, hbuilt, hview⟩ := Store.new_list_of_areDrafts hdrafts
  refine ⟨_, _, ?_, hgrows.trans hbuilt, hview⟩
  simp only [loadAll, checkText_of_read _ h, hvalid, hlength]

/-! ## Limits -/

/-- An indentation that is not below zero and fits half a word is one for a text. -/
theorem exists_textIndent {indent? : Option Int}
    (h : ∀ n, indent? = some n → 0 ≤ n ∧ n < 2 ^ 63) : ∃ n, textIndent indent? = .ok n := by
  rcases indent? with _ | n
  · exact ⟨none, rfl⟩
  · obtain ⟨hlow, hhigh⟩ := h n rfl
    have hword : wordCount = 2 ^ 64 := rfl
    exact ⟨some n.toNat, by rw [textIndent, if_neg (by omega), if_neg (by omega)]⟩

theorem listIndent_of_natAbs_lt {n : Int} (h : n.natAbs < 2 ^ 63) :
    listIndent (some n) = .ok (some n.toNat) := by
  have hword : signedWordCount = 2 ^ 63 := rfl
  rw [listIndent, if_neg (by omega)]

/-- An indentation that fits half a word, below zero or not, is one for a list. -/
theorem exists_listIndent {indent? : Option Int} (h : ∀ n, indent? = some n → n.natAbs < 2 ^ 63) :
    ∃ n, listIndent indent? = .ok n := by
  rcases indent? with _ | n
  · exact ⟨none, rfl⟩
  · exact ⟨_, listIndent_of_natAbs_lt (h n rfl)⟩

/-- Where the JSON of a diagnostic is not too deep to be read, the files of its labels are not too
deep to be written. -/
theorem room_of_keepsLimits (h : (c.json omitMissingCode).KeepsLimits .standard) :
    ∀ l ∈ c.labels, l.fileId.json.nesting + 2 ≤ nestingLimit := by
  intro l hl
  have hdeep := Nat.le_trans (DiagnosticContent.nesting_fileId hl) h.depth
  simp only [Json.Limits.standard, nestingLimit] at *
  omega

/-- JSON whose integers are short enough to be read is written: a minus counts for the reader only. -/
theorem integersFit_of_keepsLimits {j : Json} (h : j.KeepsLimits .standard) :
    j.integersFit (Json.hasFewDigits digitLimit) = true := by
  refine Json.integersFit_mono (fun n hn => ?_) h.integers
  have hshort := of_decide_eq_true hn
  rw [Digits.length_text] at hshort
  exact decide_eq_true (Nat.le_trans (Nat.le_add_right _ _) hshort)

theorem isExact_list (hcs : ∀ c ∈ cs, c.IsPortable) :
    (Json.array (cs.map (DiagnosticContent.json omitMissingCode))).IsExact :=
  .array (List.forall_mem_map.2 fun c hc => c.isExact_json (hcs c hc))

/-! ## Round trips -/

/-- An error with one label, in a file that is a table; a code is missing in both. -/
def sample : DiagnosticContent :=
  ⟨.error, none, "no such name", [⟨.primary, .table [("code", .none)], ⟨4, 1⟩, "é"⟩], ["note"]⟩

/-- The error and the list that holds it twice, as the last two objects. -/
def sampleStore : Store :=
  ⟨[.byteRange ⟨.int 4, .int 1⟩, .table [("code", .none)],
    .label ⟨.style .primary, .object 1, .object 0, .text "é"⟩, .list [.object 2],
    .list [.text "note"],
    .diagnostic ⟨.severity .error, .none, .text "no such name", .object 3, .object 4⟩,
    .list [.object 5, .object 5]], 0, [], {}⟩

theorem isNative_sample : sample.IsNative := by
  intro l hl
  obtain rfl := List.mem_singleton.1 hl
  exact .table (List.forall_mem_singleton.2 .none) (List.pairwise_singleton _ _)

/-- **Round trip of a diagnostic.** Whatever a diagnostic holds and however it is written, writing
it succeeds, and reading the text gives a diagnostic that shows the same, into whatever store it is
read. -/
theorem load_dump (hc : c.IsNative) (config : Config)
    (hindent : ∀ n, config.indent? = some n → 0 ≤ n ∧ n < 2 ^ 63)
    (hlimits : (c.json config.omitMissingCode).KeepsLimits .standard)
    {σ : Store} {v : Value} (h : σ.view v = some c.data) :
    ∃ text entry, dump config v σ = ⟨.ok text, σ, [entry]⟩ ∧
      ∀ σ' : Store, ∃ w τ entry', load (.text text) σ' = ⟨.ok w, τ, [entry']⟩ ∧
        σ'.Grows τ ∧ τ.view w = some c.data := by
  obtain ⟨n, hn⟩ := exists_textIndent hindent
  refine ⟨_, _, dump_of_view h hc.isPortable (room_of_keepsLimits hlimits) config hn, fun σ' => ?_⟩
  have hread := Json.read_render (textLayout n)
    (DiagnosticContent.isExact_json hc.isPortable) hlimits
  obtain ⟨w, τ, hload, hgrows, hview⟩ := load_of_read hc hread σ'
  exact ⟨w, τ, _, hload, hgrows, hview⟩

/-- An error that is written over several lines, without its code. -/
theorem load_dump_sample : ∃ text entry,
    dump ⟨some 2, true⟩ (.object 5) sampleStore = ⟨.ok text, sampleStore, [entry]⟩ ∧
      ∀ σ' : Store, ∃ w τ entry', load (.text text) σ' = ⟨.ok w, τ, [entry']⟩ ∧
        σ'.Grows τ ∧ τ.view w = some sample.data :=
  load_dump isNative_sample ⟨some 2, true⟩ (by simp) ⟨by decide, by decide⟩ rfl

/-- **Round trip of a list.** Writing a list of diagnostics succeeds, and reading the text gives a
list of diagnostics that show the same, in the same order. An indentation below zero counts as
zero. -/
theorem loadAll_dumpAll (hcs : ∀ c ∈ cs, c.IsNative) (config : Config)
    (hindent : ∀ n, config.indent? = some n → n.natAbs < 2 ^ 63)
    (hlimits : (Json.array (cs.map (DiagnosticContent.json config.omitMissingCode))).KeepsLimits
      .standard)
    {σ : Store} {v : Value} (h : σ.view v = some (.list (cs.map DiagnosticContent.data))) :
    (∃ text entry, dumpAll config v σ = ⟨.ok text, σ, [entry]⟩ ∧
      ∀ σ' : Store, ∃ w τ entry', loadAll (.text text) σ' = ⟨.ok w, τ, [entry']⟩ ∧
        σ'.Grows τ ∧ τ.view w = some (.list (cs.map DiagnosticContent.data))) ∧
      ∀ n, config.indent? = some n → n < 0 →
        dumpAll config v σ = dumpAll ⟨some 0, config.omitMissingCode⟩ v σ := by
  have hportable := fun c hc => (hcs c hc).isPortable
  have hkeeps : ∀ c ∈ cs, (c.json config.omitMissingCode).KeepsLimits .standard :=
    fun c hc => hlimits.of_mem_items (List.mem_map_of_mem hc)
  have hroom : ∀ c ∈ cs, ∀ l ∈ c.labels, l.fileId.json.nesting + 2 ≤ nestingLimit :=
    fun c hc => room_of_keepsLimits (hkeeps c hc)
  obtain ⟨l, vs, rfl, hl, hvs⟩ := Store.list_of_view h
  have hviews := List.forall₂_map_right_iff.1 hvs
  have hfits := integersFit_of_keepsLimits hlimits
  refine ⟨?_, ?_⟩
  · obtain ⟨n, hn⟩ := exists_listIndent hindent
    refine ⟨_, _, dumpAll_of_view hl hviews hportable hroom config hn hfits, fun σ' => ?_⟩
    have hread := Json.read_render (listLayout n) (isExact_list hportable) hlimits
    obtain ⟨w, τ, hload, hgrows, hview⟩ := loadAll_of_read hcs hread σ'
    exact ⟨w, τ, _, hload, hgrows, hview⟩
  · intro n hn hneg
    have hbelow : listIndent config.indent? = .ok (some 0) := by
      rw [hn, listIndent_of_natAbs_lt (hindent n hn), Int.toNat_of_nonpos (Int.le_of_lt hneg)]
    have hwritten := dumpAll_of_view hl hviews hportable hroom config hbelow hfits
    have hzero :=
      dumpAll_of_view hl hviews hportable hroom ⟨some 0, config.omitMissingCode⟩ rfl hfits
    exact hwritten.trans hzero.symm

/-- Two errors that are the same object are read back as two. -/
theorem loadAll_dumpAll_sample : (∃ text entry,
    dumpAll ⟨some (-1), true⟩ (.object 6) sampleStore = ⟨.ok text, sampleStore, [entry]⟩ ∧
      ∀ σ' : Store, ∃ w τ entry', loadAll (.text text) σ' = ⟨.ok w, τ, [entry']⟩ ∧
        σ'.Grows τ ∧ τ.view w = some (.list ([sample, sample].map DiagnosticContent.data))) ∧
      ∀ n, some (-1) = some n → n < 0 →
        dumpAll ⟨some (-1), true⟩ (.object 6) sampleStore =
          dumpAll ⟨some 0, true⟩ (.object 6) sampleStore :=
  loadAll_dumpAll (by simp [isNative_sample]) ⟨some (-1), true⟩ (by simp)
    ⟨by decide, by decide⟩ rfl

/-! ## One JSON -/

/-- **Encodings agree.** The text of each diagnostic, the part of the text of the list that is about
it, and its plain data are the same JSON, key by key in the same order. In it a code is left out
where it is missing and may be left out, and whatever else a file may hold is there. -/
theorem encodings_agree (hcs : ∀ c ∈ cs, c.IsPortable) (config : Config)
    (hindent : ∀ n, config.indent? = some n → 0 ≤ n ∧ n < 2 ^ 63)
    (hlimits : (Json.array (cs.map (DiagnosticContent.json config.omitMissingCode))).KeepsLimits
      .standard)
    {σ : Store} {l : Loc} {vs : List Value} (hl : σ.get? l = some (.list vs))
    (h : List.Forall₂ (fun v c => σ.view v = some c.data) vs cs) :
    ∃ text js, (dumpAll config (.object l) σ).result = .ok text ∧
      Json.read .standard text = .ok (.array js) ∧ js.length = vs.length ∧
      ∀ (i : Nat) (v : Value) (c : DiagnosticContent), vs[i]? = some v → cs[i]? = some c →
        ∃ one es, (dump config v σ).result = .ok one ∧
          Json.read .standard one = .ok (.object es) ∧
          js[i]? = some (.object es) ∧
          (toJson config v).perform σ = (.ok (.object es), σ) ∧
          es.map Prod.fst = (if config.omitMissingCode = true ∧ c.code = none
            then ["severity", "message", "labels", "notes"]
            else ["severity", "code", "message", "labels", "notes"]) ∧
          es.lookup "labels" = some (.array (c.labels.map fun x =>
            .object [("style", .text x.style.word), ("file_id", x.fileId.json),
              ("range", .object [("start", .int x.range.start), ("end", .int x.range.stop)]),
              ("message", .text x.message)])) := by
  have hkeeps : ∀ c ∈ cs, (c.json config.omitMissingCode).KeepsLimits .standard :=
    fun c hc => hlimits.of_mem_items (List.mem_map_of_mem hc)
  have hroom : ∀ c ∈ cs, ∀ l ∈ c.labels, l.fileId.json.nesting + 2 ≤ nestingLimit :=
    fun c hc => room_of_keepsLimits (hkeeps c hc)
  have hsmall : ∀ n, config.indent? = some n → n.natAbs < 2 ^ 63 := by
    intro n hn
    have hbounds := hindent n hn
    omega
  obtain ⟨m, hm⟩ := exists_listIndent hsmall
  obtain ⟨n, hn⟩ := exists_textIndent hindent
  have hall := dumpAll_of_view hl h hcs hroom config hm (integersFit_of_keepsLimits hlimits)
  have hlist := Json.read_render (listLayout m) (isExact_list hcs) hlimits
  refine ⟨_, _, congrArg Outcome.result hall, hlist, ?_, ?_⟩
  · rw [List.length_map, h.length_eq]
  intro i v c hv hc
  have hview : σ.view v = some c.data := by
    obtain ⟨hi, rfl⟩ := List.getElem?_eq_some_iff.1 hv
    obtain ⟨hj, rfl⟩ := List.getElem?_eq_some_iff.1 hc
    exact h.get hi hj
  have hmem := List.mem_of_getElem? hc
  have hone := dump_of_view hview (hcs c hmem) (hroom c hmem) config hn
  have hread := Json.read_render (textLayout n) (c.isExact_json (hcs c hmem)) (hkeeps c hmem)
  refine ⟨_, c.entries config.omitMissingCode, congrArg Outcome.result hone, hread, ?_, ?_, ?_, ?_⟩
  · rw [List.getElem?_map, hc]
    rfl
  · exact toJson_of_view hview (hcs c hmem) (hroom c hmem) config
  · exact c.map_fst_entries config.omitMissingCode
  · exact DiagnosticContent.lookup_entries rfl

/-- The second of two errors without a code, which the files of their labels have. -/
theorem encodings_agree_sample : ∃ text js one es,
    (dumpAll ⟨none, true⟩ (.object 6) sampleStore).result = .ok text ∧
      Json.read .standard text = .ok (.array js) ∧
      (dump ⟨none, true⟩ (.object 5) sampleStore).result = .ok one ∧
      Json.read .standard one = .ok (.object es) ∧ js[1]? = some (.object es) ∧
      (toJson ⟨none, true⟩ (.object 5)).perform sampleStore = (.ok (.object es), sampleStore) ∧
      es.map Prod.fst = ["severity", "message", "labels", "notes"] ∧
      es.lookup "labels" = some (.array [.object [("style", .text "primary"),
        ("file_id", .object [("code", .null)]),
        ("range", .object [("start", .int 4), ("end", .int 1)]), ("message", .text "é")]]) := by
  have hportable : ∀ c ∈ [sample, sample], c.IsPortable := by simp [isNative_sample.isPortable]
  have hl : sampleStore.get? 6 = some (.list [.object 5, .object 5]) := rfl
  obtain ⟨text, js, hall, hlist, -, heach⟩ := encodings_agree hportable ⟨none, true⟩ (by simp)
    ⟨by decide, by decide⟩ hl (.cons rfl (.cons rfl .nil))
  obtain ⟨one, es, hone, hread, hitem, hplain, hkeys, hlabels⟩ :=
    heach 1 (.object 5) sample rfl rfl
  exact ⟨text, js, one, es, hall, hlist, hone, hread, hitem, hplain, hkeys, hlabels⟩

end Diagnostics.Exchange
