import Diagnostics.Proofs.Validation.Issues

/-!
# Two ways to make a label

A label is made from its parts, with the range settled first and on its own, or from a table of its
fields, with the range as one field among others. Where the range is given in a form that both ways
look at, one label comes out of both, or failures that differ only in how the issues of the range
are reported: under their own title and alone, or below the field and after those of the style
(`LabelOutcomes`, `label_twoWays`).
-/

namespace Diagnostics

variable {σ τ : Store} {v style fileId range : Value} {entries : List (String × Value)}

open Diagnostics.Action Store

namespace Store

/-- Whether a value is of a type that describes ranges wherever a label takes one. -/
inductive IsRangeLike (σ : Store) (v : Value) : Prop
  | byteRange (isByteRange : σ.IsByteRange v)
  | list {items : List Value} (cell : σ.cell? v = some (.list items))
  | tuple {items : List Value} (cell : σ.cell? v = some (.tuple items))
  | range {start stop step : Int} (cell : σ.cell? v = some (.range start stop step))
  | slice {start stop step : Value} (cell : σ.cell? v = some (.slice start stop step))

end Store

namespace Validation

/-- The issues with the style of a label. -/
def styleIssues (σ : Store) (v : Value) : List Issue :=
  ((Validation.style σ v).under (.field "style")).issues

theorem styleIssues_eq_nil_iff : styleIssues σ v = [] ↔ ∃ s, Validation.style σ v = .valid s := by
  rw [styleIssues]
  rcases style_single σ v with ⟨s, hs⟩ | ⟨kind, hkind⟩
  · rw [hs]
    exact ⟨fun _ => ⟨s, rfl⟩, fun _ => rfl⟩
  · rw [hkind]
    exact ⟨nofun, nofun⟩

/-- A style is no matter of byte ranges. -/
theorem style_alloc (σ : Store) (r : RangeFields) (v : Value) :
    Validation.style (σ.alloc (.byteRange r)).2 v = Validation.style σ v := by
  have hword : word? (σ.alloc (.byteRange r)).2 v = word? σ v := by
    cases v with
    | object l =>
      rcases Nat.lt_trichotomy l σ.size with hl | rfl | hl
      · simp only [word?, Store.cell?, get?_alloc_of_lt σ _ hl]
      · have hold : σ.get? σ.size = none := List.getElem?_eq_none (Nat.le_refl _)
        simp only [word?, Value.asText?, Store.cell?, get?_alloc_self, hold]
      · have hold : σ.get? l = none := List.getElem?_eq_none (Nat.le_of_lt hl)
        have hnew : (σ.alloc (.byteRange r)).2.get? l = none :=
          List.getElem?_eq_none (by rw [← size, size_alloc]; exact hl)
        simp only [word?, Store.cell?, hold, hnew]
    | _ => rfl
  simp only [Validation.style, hword]

/-- Making a byte range or taking one has no influence on styles. -/
theorem style_build (σ : Store) (d : Draft ByteRange) (v : Value) :
    Validation.style (d.build newByteRange σ).2 v = Validation.style σ v := by
  cases d with
  | existing l => rfl
  | fresh r => exact style_alloc σ _ v

/-- Types that describe ranges do so for labels as well. -/
theorem labelRange_of_isRangeLike (source : Source) (h : σ.IsRangeLike v) :
    labelRange source σ v = contain (asByteRange σ v) := by
  cases h with
  | byteRange isByteRange =>
    obtain ⟨r, hr⟩ := isByteRange
    obtain ⟨l, rfl, hl⟩ := exists_of_cell? hr
    simp only [labelRange, asByteRange, byteRange, record, hr, contain, if_true]
  | list cell => simp only [labelRange, cell]
  | tuple cell => simp only [labelRange, cell]
  | range cell => simp only [labelRange, cell]
  | slice cell => simp only [labelRange, cell]

section Fields

variable (hstyle : entries.lookup "style" = some style)
  (hfile : entries.lookup "file_id" = some fileId) (hrange : entries.lookup "range" = some range)
  (hmessage : entries.lookup "message" = none)

include hstyle hfile hrange hmessage

/-- The fields of a label without a message are the style and the range, for any file will do. -/
theorem labelFields_eq (source : Source) : labelFields source σ entries =
    (((Validation.style σ style).under (.field "style")).both
      ((labelRange source σ range).under (.field "range"))).map
        fun p => ⟨p.1, fileId, p.2, ""⟩ := by
  rw [labelFields, required, hstyle, required, hfile, required, hrange, optional_default hmessage]
  dsimp only
  generalize (Validation.style σ style).under (.field "style") = c
  generalize (labelRange source σ range).under (.field "range") = d
  cases c <;> cases d <;> rfl

theorem labelFields_of_badStyle (source : Source) {d : Draft ByteRange}
    (hs : styleIssues σ style ≠ []) (hd : labelRange source σ range = .valid d) :
    labelFields source σ entries = .invalid (styleIssues σ style) := by
  rw [labelFields_eq hstyle hfile hrange hmessage, hd]
  rw [styleIssues] at hs ⊢
  rcases style_single σ style with ⟨s, hstyle⟩ | ⟨kind, hstyle⟩
  · rw [hstyle] at hs
    exact absurd rfl hs
  · rw [hstyle]
    rfl

theorem labelFields_of_issues (source : Source) {issues : List Issue}
    (hissues : labelRange source σ range = .invalid issues) : labelFields source σ entries =
      .invalid (styleIssues σ style ++ issues.map (Issue.under (.field "range"))) := by
  rw [labelFields_eq hstyle hfile hrange hmessage, hissues, styleIssues]
  rcases style_single σ style with ⟨s, hstyle⟩ | ⟨kind, hstyle⟩
  · rw [hstyle]
    rfl
  · rw [hstyle]
    rfl

theorem labelFields_of_aborted (source : Source) {e : Failure}
    (haborted : labelRange source σ range = .aborted e) :
    labelFields source σ entries = .aborted e := by
  rw [labelFields_eq hstyle hfile hrange hmessage, haborted]
  rcases style_single σ style with ⟨s, hstyle⟩ | ⟨kind, hstyle⟩
  · rw [hstyle]
    rfl
  · rw [hstyle]
    rfl

end Fields

end Validation

namespace Record

open Validation

/-- The outcome of settling the range of a label, and what then comes of making the label from its
parts and of making it from a table. -/
inductive LabelOutcomes (σ : Store) (style fileId : Value) :
    (range parts table : Except Failure Value × Store) → Prop
  /-- One label comes out of both ways, with the style and the range as they were found. -/
  | made {s : LabelStyle} {w a : Value} {τ ρ : Store} (known : Validation.style σ style = .valid s)
    (isByteRange : ρ.IsByteRange w)
    (label : ρ.cell? a = some (.label ⟨.style s, fileId, w, .text ""⟩)) :
    LabelOutcomes σ style fileId (.ok w, τ) (.ok a, ρ) (.ok a, ρ)
  /-- Nothing but the style is wrong. -/
  | badStyle {w : Value} {τ : Store} (unknown : styleIssues σ style ≠ []) :
    LabelOutcomes σ style fileId (.ok w, τ)
      (.error (.invalid "Label" (styleIssues σ style)), τ)
      (.error (.invalid "Label" (styleIssues σ style)), σ)
  /-- The range is refused for its form, or takes too many calls to be shown, whatever the style. -/
  | refused {e : Failure} (other : ∀ title issues, e ≠ .invalid title issues)
    (explained : e ≠ .integerTooLong) :
    LabelOutcomes σ style fileId (.error e, σ) (.error e, σ) (.error e, σ)
  /-- The range has issues. -/
  | badRange {issues : List Issue} (nonempty : issues ≠ []) :
    LabelOutcomes σ style fileId (.error (.invalid "ByteRange" issues), σ)
      (.error (.invalid "ByteRange" issues), σ)
      (.error (.invalid "Label"
        (styleIssues σ style ++ issues.map (Issue.under (.field "range")))), σ)
  /-- The range is refused, and the explanation cannot be written. -/
  | unexplained :
    LabelOutcomes σ style fileId (.error .integerTooLong, σ) (.error .integerTooLong, σ)
      (.error (.invalid "Label" (styleIssues σ style ++
        [⟨[.field "range"], .unexplained Failure.integerTooLong.message⟩])), σ)

/-- The parts of a label are settled one after the other. -/
theorem perform_label_of_error {e : Failure}
    (h : (toByteRange range).perform σ = (.error e, σ)) :
    (label style fileId range).perform σ = (.error e, σ) :=
  perform_bind_of_error σ h

/-- A label from a table is what the fields in it come to. -/
theorem perform_ofData_table {data : Value} (hdata : σ.cell? data = some (.table entries)) :
    (ofData .label data).perform σ = (labelOfFields entries).perform σ := by
  obtain ⟨l, rfl, hl⟩ := exists_of_cell? hdata
  have hcheck : Validation.label .values σ (.object l) =
      (labelFields .values σ entries).map .fresh := record_of_table _ hl rfl
  simp only [perform, ofData, labelOfFields, build, ExceptT.run, StateT.run, hcheck, RecordType.name]

theorem perform_fields_of_invalid {issues : List Issue}
    (h : labelFields .values σ entries = .invalid issues) :
    (labelOfFields entries).perform σ = (.error (.invalid "Label" issues), σ) :=
  perform_build_of_invalid newLabel "Label" (fun σ => (labelFields .values σ entries).map .fresh)
    (by rw [h]; rfl)

theorem perform_fields_of_aborted {e : Failure} (h : labelFields .values σ entries = .aborted e) :
    (labelOfFields entries).perform σ = (.error e, σ) :=
  perform_build_of_aborted newLabel "Label" (fun σ => (labelFields .values σ entries).map .fresh)
    (by rw [h]; rfl)

/-- A new label comes after its range. -/
theorem newLabel_eq (σ : Store) (fileId : Value) (d : Draft ByteRange) (s : LabelStyle)
    (m : String) : newLabel σ ⟨s, fileId, d, m⟩ = (d.build newByteRange σ).2.new
      (.label ⟨.style s, fileId, (d.build newByteRange σ).1, .text m⟩) := rfl

section

variable (hstyle : entries.lookup "style" = some style)
  (hfile : entries.lookup "file_id" = some fileId) (hrange : entries.lookup "range" = some range)
  (hmessage : entries.lookup "message" = none)

include hstyle hfile hrange hmessage

/-- With a range that is settled only the style decides. -/
theorem twoWays_of_valid {d : Draft ByteRange} (hd : asByteRange σ range = .valid d)
    (hregion : labelRange .values σ range = .valid d) :
    LabelOutcomes σ style fileId ((toByteRange range).perform σ)
      ((label style fileId range).perform σ) ((labelOfFields entries).perform σ) := by
  have hmade : (toByteRange range).perform σ = _ :=
    perform_build newByteRange "ByteRange" (asByteRange · range) hd
  have hsettled := style_build σ d style
  have hlabel := newLabel_eq σ fileId d
  generalize d.build newByteRange σ = made at hmade hsettled hlabel
  obtain ⟨w, τ⟩ := made
  have hbyteRange : τ.IsByteRange w := (isByteRange_of_toByteRange hmade).2
  obtain ⟨l, rfl, htaken⟩ := labelRange_of_isByteRange hbyteRange .values
  rw [label, perform_bind_of_ok _ hmade, hmade]
  by_cases hs : styleIssues σ style = []
  · obtain ⟨s, hs⟩ := styleIssues_eq_nil_iff.1 hs
    rw [perform_fields_of_valid (labelFields_of_valid rfl (hsettled.trans hs) rfl rfl htaken
        (optional_default rfl)),
      perform_fields_of_valid (labelFields_of_valid hstyle hs hfile hrange hregion
        (optional_default hmessage)), hlabel]
    obtain ⟨r, hr⟩ := hbyteRange
    exact .made hs ⟨r, get?_alloc_of_get? _ hr⟩ (get?_alloc_self _ _)
  · have hparts : styleIssues τ style = styleIssues σ style := by
      rw [styleIssues, hsettled, styleIssues]
    rw [perform_fields_of_invalid
        (labelFields_of_badStyle rfl rfl rfl rfl .values (hparts ▸ hs) htaken),
      perform_fields_of_invalid
        (labelFields_of_badStyle hstyle hfile hrange hmessage .values hs hregion), hparts]
    exact .badStyle hs

/-- A range with issues is reported alone by the one way and after the style by the other. -/
theorem twoWays_of_issues {issues : List Issue} (hne : issues ≠ [])
    (hissues : asByteRange σ range = .invalid issues)
    (hregion : labelRange .values σ range = .invalid issues) :
    LabelOutcomes σ style fileId ((toByteRange range).perform σ)
      ((label style fileId range).perform σ) ((labelOfFields entries).perform σ) := by
  have hrefused : (toByteRange range).perform σ = _ :=
    perform_build_of_invalid newByteRange "ByteRange" (asByteRange · range) hissues
  rw [perform_label_of_error hrefused, hrefused, perform_fields_of_invalid
    (labelFields_of_issues hstyle hfile hrange hmessage .values hregion)]
  exact .badRange hne

/-- A range that is refused for its form ends both ways, if the refusal can be explained. -/
theorem twoWays_of_aborted {e : Failure} (hother : ∀ title issues, e ≠ .invalid title issues)
    (he : asByteRange σ range = .aborted e)
    (hregion : labelRange .values σ range = contain (.aborted e)) :
    LabelOutcomes σ style fileId ((toByteRange range).perform σ)
      ((label style fileId range).perform σ) ((labelOfFields entries).perform σ) := by
  have hrefused : (toByteRange range).perform σ = _ :=
    perform_build_of_aborted newByteRange "ByteRange" (asByteRange · range) he
  rw [perform_label_of_error hrefused, hrefused]
  by_cases hlong : e = .integerTooLong
  · subst hlong
    rw [perform_fields_of_invalid
      (labelFields_of_issues hstyle hfile hrange hmessage .values hregion)]
    exact .unexplained
  · have hcontained : labelRange .values σ range = .aborted e := by
      rw [hregion, contain]
      exact fun h => hlong (Check.aborted.inj h)
    rw [perform_fields_of_aborted
      (labelFields_of_aborted hstyle hfile hrange hmessage .values hcontained)]
    exact .refused hother hlong

end

/-- **Two ways.** A label is made of its parts, or of a table of its fields. With a range of a type
that both ways look at, the outcomes correspond. -/
theorem label_twoWays {data : Value} (hlike : σ.IsRangeLike range)
    (hdata : σ.cell? data = some (.table entries)) (hstyle : entries.lookup "style" = some style)
    (hfile : entries.lookup "file_id" = some fileId) (hrange : entries.lookup "range" = some range)
    (hmessage : entries.lookup "message" = none) :
    LabelOutcomes σ style fileId ((toByteRange range).perform σ)
      ((label style fileId range).perform σ) ((ofData .label data).perform σ) := by
  have hregion := labelRange_of_isRangeLike .values hlike
  rw [perform_ofData_table hdata]
  rcases asByteRange_cases σ range with ⟨d, hd⟩ | ⟨issues, hne, hissues⟩ | ⟨e, hother, he⟩
  · exact twoWays_of_valid hstyle hfile hrange hmessage hd (by rw [hregion, hd]; rfl)
  · exact twoWays_of_issues hstyle hfile hrange hmessage hne hissues (by rw [hregion, hissues]; rfl)
  · exact twoWays_of_aborted hstyle hfile hrange hmessage hother he (by rw [hregion, he])

/-- A pair that starts below zero, and fields of a label with it and with a word that is no style. -/
def twoFaults : Store where
  cells := [.list [.int (-1), .int 5],
    .table [("style", .text "tertiary"), ("file_id", .int 3), ("range", .object 0)]]
  nans := 0
  carried := []

/-- One way there is only the issue of the range, the other way the issue of the style comes first. -/
theorem label_twoWays_twoFaults :
    LabelOutcomes twoFaults (.text "tertiary") (.int 3)
      ((toByteRange (.object 0)).perform twoFaults)
      ((label (.text "tertiary") (.int 3) (.object 0)).perform twoFaults)
      ((ofData .label (.object 1)).perform twoFaults) ∧
    (label (.text "tertiary") (.int 3) (.object 0)).perform twoFaults =
      (.error (.invalid "ByteRange" [⟨[.field "start"], .negative⟩]), twoFaults) ∧
    (ofData .label (.object 1)).perform twoFaults =
      (.error (.invalid "Label" [⟨[.field "style"], .notAWord ["primary", "secondary"]⟩,
        ⟨[.field "range", .field "start"], .negative⟩]), twoFaults) :=
  ⟨label_twoWays (.list rfl) rfl rfl rfl rfl rfl, rfl, rfl⟩

end Record

end Diagnostics
