import Diagnostics.Proofs.Exchange.Respelled

/-!
# Diagnostics do not depend on the spelling of a range

Data with the range of a label in one spelling or another comes to the same, whatever else is wrong
with it; and so does a text with the range as a list or as an object, as long as the text is JSON
(`ofPlain_load_respelled`). A text that is no JSON in one spelling is none in the other, for the same
reason, but the place of the fault in it moves with the length of what stands in front of it
(`load_unclosed_ne`).
-/

namespace Diagnostics

variable {σ τ : Store} {o p : Outcome Value}

/-! ## Drafts -/

theorem LabelContent.IsDraft.eq {c c' : LabelContent} {d : Draft LabelDraft} (h : c.IsDraft σ d)
    (h' : c'.IsDraft σ d) : c = c' := by
  obtain ⟨file, rfl, hfile⟩ := h
  obtain ⟨file', hd, hfile'⟩ := h'
  cases c
  cases c'
  cases hd
  cases hfile.symm.trans hfile'
  rfl

/-- A draft is to hold one content only. -/
theorem DiagnosticContent.IsDraft.eq {c c' : DiagnosticContent} {d : Draft DiagnosticDraft}
    (h : c.IsDraft σ d) (h' : c'.IsDraft σ d) : c = c' := by
  obtain ⟨labels, rfl, hlabels⟩ := h
  obtain ⟨labels', hd, hlabels'⟩ := h'
  cases c
  cases c'
  cases hd
  have hunique : Relator.LeftUnique (LabelContent.IsDraft σ) :=
    fun _ _ _ => LabelContent.IsDraft.eq
  cases List.left_unique_forall₂' hunique hlabels hlabels'
  rfl

/-! ## Outcomes -/

/-- Two ways to read a diagnostic that come to the same: a diagnostic that shows the same, but for
marks, or the same failure. -/
inductive Outcome.Same (o p : Outcome Value) : Prop
  | diagnostics {d : Data} (left : o.Yields d) (right : p.Yields d)
  | failures {e : Failure} (left : o.result = .error e) (right : p.result = .error e)

/-- What ends as the same check does comes to the same. -/
theorem Outcome.Follows.same {c : Check (Draft DiagnosticDraft)} (h : o.Follows σ c)
    (h' : p.Follows σ c) : o.Same p := by
  cases h with
  | valid draft yields =>
    cases h' with
    | valid draft' yields' =>
      rw [draft'.eq draft] at yields'
      exact .diagnostics yields yields'
  | invalid result =>
    cases h' with
    | invalid result' => exact .failures result result'
  | aborted result =>
    cases h' with
    | aborted result' => exact .failures result result'

namespace Exchange

open Store

/-- Data that checks the same comes to the same. -/
theorem ofPlain_eq_of_check {v w : Value}
    (h : Validation.diagnostic .values σ v = Validation.diagnostic .values σ w) :
    (ofPlain v σ).result = (ofPlain w σ).result ∧ (ofPlain v σ).log = (ofPlain w σ).log ∧
      ∀ u, (ofPlain v σ).store.view u = (ofPlain w σ).store.view u := by
  -- what was used up of the data is all that differs
  have hspent := (Validation.spendDiagnostic_akin .values σ v).symm.trans
    (Validation.spendDiagnostic_akin .values σ w)
  simp only [ofPlain, Record.ofData, Record.buildDiagnostic, Action.perform, ExceptT.run,
    StateT.run, h]
  cases Validation.diagnostic .values σ w with
  | valid d =>
    obtain ⟨hvalue, hakin⟩ := Akin.build Akin.newDiagnostic hspent d
    exact ⟨congrArg Except.ok hvalue, rfl, hakin.view_eq⟩
  | invalid issues => exact ⟨rfl, rfl, hspent.view_eq⟩
  | aborted e =>
    cases e <;> exact ⟨rfl, rfl, hspent.view_eq⟩

/-- How two texts are read alike: they come to the same, or neither of them is JSON, for the same
reason. -/
inductive ReadAlike (σ τ : Store) (text text' : String) : Prop
  | json {j j' : Json} (left : Json.read .standard text = .ok j)
    (right : Json.read .standard text' = .ok j')
    (same : (load (.text text) σ).Same (load (.text text') τ))
  | malformed {fault : Json.Fault} {p q : Json.Position}
    (left : (load (.text text) σ).result =
      .error (.invalid "Diagnostic" [⟨[], .malformedJson fault p⟩]))
    (right : (load (.text text') τ).result =
      .error (.invalid "Diagnostic" [⟨[], .malformedJson fault q⟩]))

/-- Loads follow the check of whatever data shows what is read. -/
theorem load_same_of_alike {i : Nat} {s t b c j j' : Json} {text text' : String}
    (hb : Json.IsRange s t b) (hc : Json.IsRange s t c)
    (hj : Json.Alike b c (rangeOfLabel i) j j') (hread : Json.read .standard text = .ok j)
    (hread' : Json.read .standard text' = .ok j') (σ τ : Store) :
    (load (.text text) σ).Same (load (.text text') τ) := by
  rcases hj with rfl | hdiffer
  · obtain ⟨-, hshows⟩ := ofJson_shows .empty j
    exact (load_follows hread hshows σ).same (load_follows hread' hshows τ)
  · obtain ⟨ρ, v, w, hv, hw, hcheck⟩ := diagnostic_eq_of_differ hb hc hdiffer .json
    have hfollows := load_follows hread hv σ
    rw [hcheck] at hfollows
    exact hfollows.same (load_follows hread' hw τ)

/-- A text that stops the reader is refused as no JSON. -/
theorem exists_load_of_stop {cs : List Char} {stop : Json.Stop}
    (h : Json.document .characters .standard cs = .error stop) (σ : Store) :
    ∃ p, (load (.text (String.ofList cs)) σ).result =
      .error (.invalid "Diagnostic" [⟨[], .malformedJson stop.fault p⟩]) := by
  have hread : Json.read .standard (String.ofList cs) =
      .error (stop.fault, .before .characters cs stop.rest) := by
    simp only [Json.read, Json.readUnits, String.toList_ofList, h]
  exact ⟨_, load_of_fault hread σ⟩

/-- Texts with a range in two spellings are read alike. -/
theorem readAlike_of_spellings {i : Nat} {front s t x y : List Char}
    (hfront : Json.Opens .characters (rangeOfLabel i) front)
    (hs : ∃ j, Json.Spells .characters s j) (ht : ∃ j, Json.Spells .characters t j)
    (hx : Json.RangeText .characters s t x) (hy : Json.RangeText .characters s t y)
    (rest : List Char) (σ τ : Store) :
    ReadAlike σ τ (String.ofList (front ++ x ++ rest)) (String.ofList (front ++ y ++ rest)) := by
  obtain ⟨k, hs⟩ := hs
  obtain ⟨m, ht⟩ := ht
  obtain ⟨b, c, hb, hc, hexchange⟩ := hx.exchangeable hy hs ht
  have hmatched := Json.document_exchange hfront hx.begins hy.begins (hexchange .standard) rest
  have hread {z : List Char} {j : Json} (h : Json.document .characters .standard z = .ok j) :
      Json.read .standard (String.ofList z) = .ok j :=
    Json.read_eq_ok.2 (by rw [String.toList_ofList, h])
  generalize hleft : Json.document .characters .standard (front ++ x ++ rest) = left at hmatched
  generalize hright : Json.document .characters .standard (front ++ y ++ rest) = right at hmatched
  cases hmatched with
  | ok halike =>
    exact .json (hread hleft) (hread hright)
      (load_same_of_alike hb hc halike (hread hleft) (hread hright) σ τ)
  | error fault l r =>
    obtain ⟨p, hp⟩ := exists_load_of_stop hleft σ
    obtain ⟨q, hq⟩ := exists_load_of_stop hright τ
    exact .malformed hp hq

/-- **Spellings.** Plain data comes to the same whatever the spelling of the range of a label: to the
same diagnostic, in which everything shows the same, or to the same failure with the same issues. A
text comes to the same whether the range of a label in it is a list or an object, unless it is no
JSON; then it is none in either spelling, for the same reason. -/
theorem ofPlain_load_respelled :
    (∀ (σ : Store) (start stop r r' v w w' : Value) (i : Nat),
      σ.Spelling start stop r → σ.Spelling start stop r' →
        σ.RangeWritten r i v w → σ.RangeWritten r' i v w' →
          (ofPlain w σ).result = (ofPlain w' σ).result ∧
            (ofPlain w σ).log = (ofPlain w' σ).log ∧
            ∀ u, (ofPlain w σ).store.view u = (ofPlain w' σ).store.view u) ∧
      ∀ (σ τ : Store) (i : Nat) (front s t x y rest : List Char),
        Json.Opens .characters (rangeOfLabel i) front →
          (∃ j, Json.Spells .characters s j) → (∃ j, Json.Spells .characters t j) →
            Json.RangeText .characters s t x → Json.RangeText .characters s t y →
              ReadAlike σ τ (String.ofList (front ++ x ++ rest))
                (String.ofList (front ++ y ++ rest)) := by
  constructor
  · intro σ start stop r r' v w w' i hr hr' hw hw'
    refine ofPlain_eq_of_check (Validation.diagnostic_eq_of_rangeWritten ?_ hw hw')
    rw [Validation.labelRange_of_spelling hr, Validation.labelRange_of_spelling hr']
  · intro σ τ i front s t x y rest hfront hs ht hx hy
    exact readAlike_of_spellings hfront hs ht hx hy rest σ τ

/-- Two notes with a label that ends where no text does, once as a list and once as a part. -/
def twoSpellings : Store where
  cells := [.list [.int 4, .text "x"], .slice (.int 4) (.text "x") .none,
    .table [("style", .text "primary"), ("file_id", .int 0), ("range", .object 0)],
    .list [.object 2], .table [("severity", .text "note"), ("labels", .object 3)],
    .table [("style", .text "primary"), ("file_id", .int 0), ("range", .object 1)],
    .list [.object 5], .table [("severity", .text "note"), ("labels", .object 6)]]
  nans := 0
  carried := []

/-- The text of a note up to the range of its label. -/
def noteFront : List Char :=
  "\x7b\"severity\":\"note\",\"labels\":[\x7b\"style\":\"primary\",\"range\":".toList

theorem noteFront_opens : Json.Opens .characters (rangeOfLabel 0) noteFront := by
  have hparts : noteFront = [] ++ '\x7b' :: (Json.withCommas ["\"severity\":\"note\"".toList] ++
      ("\"labels\":".toList ++ ([] ++ '[' :: (Json.withCommas [] ++
        ([] ++ '\x7b' :: (Json.withCommas ["\"style\":\"primary\"".toList] ++
          ("\"range\":".toList ++ []))))))) := by decide
  rw [hparts]
  refine .field rfl ?_ (by decide +kernel) (.item rfl (List.forall_mem_nil _)
    (.field rfl ?_ (by decide +kernel) (.here rfl)))
  · refine List.forall_mem_singleton.2 ⟨"\"severity\":".toList, "\"note\"".toList, "severity",
      .text "note", by decide, by decide +kernel, .standard, by decide +kernel⟩
  · refine List.forall_mem_singleton.2 ⟨"\"style\":".toList, "\"primary\"".toList, "style",
      .text "primary", by decide, by decide +kernel, .standard, by decide +kernel⟩

/-- A range from zero on as a list. -/
def listFromZero (stop : String) : List Char := '[' :: ("0".toList ++ ',' :: (stop.toList ++ [']']))

/-- A range from zero on as an object. -/
def tableFromZero (stop : String) : List Char :=
  '\x7b' :: ("\"start\":".toList ++ ("0".toList ++ ',' ::
    ("\"end\":".toList ++ (stop.toList ++ ['}']))))

theorem tableFromZero_isRange (stop : String) :
    Json.RangeText .characters "0".toList stop.toList (tableFromZero stop) :=
  .table (by decide +kernel) (by decide +kernel)

/-- The text of a note with a range. -/
def noteWith (range : List Char) : String :=
  String.ofList (noteFront ++ range ++ ",\"file_id\":0\x7d]\x7d".toList)

/-- An end that is no text, and one below zero in a text, is refused alike in two spellings. -/
theorem ofPlain_load_respelled_wrongEnds :
    (ofPlain (.object 4) twoSpellings).result = .error (.invalid "Diagnostic"
      [⟨[.field "labels", .index 0, .field "range", .field "end"], .unreadableInteger⟩]) ∧
    (ofPlain (.object 7) twoSpellings).result = .error (.invalid "Diagnostic"
      [⟨[.field "labels", .index 0, .field "range", .field "end"], .unreadableInteger⟩]) ∧
    (load (.text (noteWith (listFromZero "-1"))) .empty).result = .error (.invalid "Diagnostic"
      [⟨[.field "labels", .index 0, .field "range", .field "end"], .negative⟩]) ∧
    (load (.text (noteWith (tableFromZero "-1"))) .empty).result = .error (.invalid "Diagnostic"
      [⟨[.field "labels", .index 0, .field "range", .field "end"], .negative⟩]) := by
  have hdata : (ofPlain (.object 4) twoSpellings).result = .error (.invalid "Diagnostic"
      [⟨[.field "labels", .index 0, .field "range", .field "end"], .unreadableInteger⟩]) := rfl
  have htext : (load (.text (noteWith (listFromZero "-1"))) .empty).result =
      .error (.invalid "Diagnostic"
        [⟨[.field "labels", .index 0, .field "range", .field "end"], .negative⟩]) := by decide +kernel
  have hapart (v : Value) (entries : List (String × Value))
      (hv : twoSpellings.cell? v = some (.table entries)) (hnone : entries.lookup "notes" = none) :
      twoSpellings.Apart v := by
    intro es u hes _ hnotes
    cases hv.symm.trans hes
    rw [hnone] at hnotes
    cases hnotes
  have hold := hapart (.object 4) _ rfl rfl
  have hnew := hapart (.object 7) _ rfl rfl
  have hwritten : twoSpellings.Written (.object 0) (rangeOfLabel 0) (.object 4) (.object 4) :=
    .field rfl rfl (.item .list rfl rfl (.entry rfl rfl) rfl) rfl
  have hwritten' : twoSpellings.Written (.object 1) (rangeOfLabel 0) (.object 4) (.object 7) :=
    .field rfl rfl (.item .list rfl rfl (.entry rfl rfl) rfl) rfl
  obtain ⟨hresult, -, -⟩ := ofPlain_load_respelled.1 twoSpellings (.int 4) (.text "x") (.object 0)
    (.object 1) (.object 4) (.object 4) (.object 7) 0 (.list rfl) (.slice (by simp) (by simp) rfl)
    (.apart hold hold hwritten) (.apart hold hnew hwritten')
  have halike := ofPlain_load_respelled.2 .empty .empty 0 noteFront _ _ _ _
    ",\"file_id\":0\x7d]\x7d".toList noteFront_opens ⟨.int 0, .standard, by decide +kernel⟩
    ⟨.int (-1), .standard, by decide +kernel⟩ (.list (s := "0".toList) (t := "-1".toList))
    (tableFromZero_isRange "-1")
  refine ⟨hdata, hresult ▸ hdata, htext, ?_⟩
  cases halike with
  | json _ _ same =>
    cases same with
    | diagnostics left _ =>
      obtain ⟨v, -, hv, -⟩ := left
      cases htext.symm.trans hv
    | failures left right => exact right.trans (left.symm.trans htext)
  | malformed left _ => cases htext.symm.trans left

/-- Without what closes it, a text ends elsewhere in each spelling, and so does what is said of it. -/
theorem load_unclosed_ne :
    Json.Opens .characters (rangeOfLabel 0) noteFront ∧
      Json.RangeText .characters "0".toList "1".toList (listFromZero "1") ∧
      Json.RangeText .characters "0".toList "1".toList (tableFromZero "1") ∧
      (load (.text (String.ofList (noteFront ++ listFromZero "1"))) .empty).result ≠
        (load (.text (String.ofList (noteFront ++ tableFromZero "1"))) .empty).result := by
  have hlist : (load (.text (String.ofList (noteFront ++ listFromZero "1"))) .empty).result =
      .error (.invalid "Diagnostic" [⟨[], .malformedJson .endInObject ⟨1, 61⟩⟩]) := by decide +kernel
  have htable : (load (.text (String.ofList (noteFront ++ tableFromZero "1"))) .empty).result =
      .error (.invalid "Diagnostic" [⟨[], .malformedJson .endInObject ⟨1, 75⟩⟩]) := by decide +kernel
  refine ⟨noteFront_opens, .list, tableFromZero_isRange "1", ?_⟩
  rw [hlist, htable]
  intro h
  cases h

end Exchange

end Diagnostics
