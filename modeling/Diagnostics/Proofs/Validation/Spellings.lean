import Diagnostics.Proofs.Validation.Renewed

/-!
# Spellings of the range of a label

The range of a label can be written as a list, a tuple, the bounds of a part or a table
(`Store.Spelling`), and all of these are checked as the same two ends (`labelRange_of_spelling`).
What a label is checked to be depends on the check of its range and not on the range itself, and the
same holds of the data around the label (`diagnostic_eq_of_rangeWritten`).
-/

namespace Diagnostics

variable {α : Type} {σ τ : Store} {v w u x y r r' start stop : Value}
  {entries : List (String × Value)} {source : Source}

open Store

namespace Store

/-- The ways to write a range with two ends. As the bounds of a part, neither may be left out. -/
inductive Spelling (σ : Store) (start stop : Value) (r : Value) : Prop
  | list (cell : σ.cell? r = some (.list [start, stop]))
  | tuple (cell : σ.cell? r = some (.tuple [start, stop]))
  | slice (starts : start ≠ .none) (stops : stop ≠ .none)
    (cell : σ.cell? r = some (.slice start stop .none))
  | table (cell : σ.cell? r = some (.table [("start", start), ("end", stop)]))

/-- Where the range of a label is. -/
def rangeOfLabel (i : Nat) : List PathStep := [.field "labels", .index i, .field "range"]

/-- Whether the labels and the notes of data are not one and the same one-shot sequence. -/
def Apart (σ : Store) (v : Value) : Prop :=
  ∀ entries u, σ.cell? v = some (.table entries) → entries.lookup "labels" = some u →
    entries.lookup "notes" = some u → ∀ rest, σ.cell? u ≠ some (.iterator rest)

/-- Whether the second value is the first with another range of one of its labels. Notes that are the
same one-shot sequence as the labels go with them. -/
inductive RangeWritten (σ : Store) (r : Value) (i : Nat) (v w : Value) : Prop
  | apart (before : σ.Apart v) (after : σ.Apart w) (written : σ.Written r (rangeOfLabel i) v w)
  | shared {es : List (String × Value)} {u x : Value} {items : List Value}
    (cell : σ.cell? v = some (.table es)) (labels : es.lookup "labels" = some u)
    (notes : es.lookup "notes" = some u) (oneShot : σ.cell? u = some (.iterator items))
    (inner : σ.Written r [.index i, .field "range"] u x)
    (written : σ.cell? w = some (.table (Json.put "notes" x (Json.put "labels" x es))))

end Store

/-- Cells that hold the same in a row are of one kind. -/
theorem Cell.IsRow.eq_of_eq {make make' : List Value → Cell} {vs ws : List Value}
    (h : IsRow make) (h' : IsRow make') (heq : make vs = make' ws) : make = make' ∧ vs = ws := by
  cases h <;> cases h' <;> simp_all

namespace Validation

/-- Two items are checked the same in a row of items that are checked the same. -/
theorem each_congr {β : Type} {f : α → Check β} {as bs : List α} (h : as.map f = bs.map f)
    (i : Nat) : Check.each f i as = Check.each f i bs := by
  induction as generalizing bs i with
  | nil =>
    rw [List.map_nil, eq_comm, List.map_eq_nil_iff] at h
    rw [h]
  | cons a as ih =>
    obtain ⟨b, bs, rfl, hab, hrest⟩ := List.map_eq_cons_iff.1 h.symm
    rw [Check.each, Check.each, hab, ih hrest.symm]

theorem listElements?_of_row {make : List Value → Cell} {items : List Value} (h : Cell.IsRow make)
    (hv : σ.cell? v = some (make items)) : listElements? σ v = some (items, σ) := by
  obtain ⟨l, rfl, hl⟩ := exists_of_cell? hv
  cases h <;> simp only [listElements?, hv, elements?, Value.asText?, hl, Cell.items?]

/-! ## Ranges -/

theorem contain_bounds (start stop : Value) : contain (bounds start stop) = bounds start stop := by
  have hnone := failure?_bounds start stop
  generalize bounds start stop = c at hnone
  cases c with
  | aborted e => cases hnone
  | _ => rfl

/-- The fields of a range that are both there are its ends. -/
theorem byteRangeFields_of_lookup (hstart : entries.lookup "start" = some start)
    (hstop : entries.lookup "end" = some stop) :
    (byteRangeFields entries).map .fresh = bounds start stop := by
  rw [byteRangeFields, bounds, required, required, hstart, hstop]
  dsimp only
  generalize (offset start).under (.field "start") = c
  generalize (offset stop).under (.field "end") = d
  cases c <;> cases d <;> rfl

/-- **Spellings.** All spellings of a range are checked as its two ends. -/
theorem labelRange_of_spelling (h : σ.Spelling start stop r) (source : Source) :
    labelRange source σ r = bounds start stop := by
  cases h with
  | list cell => simp only [labelRange, asByteRange, cell, pair, contain_bounds]
  | tuple cell => simp only [labelRange, asByteRange, cell, pair, contain_bounds]
  | slice starts stops cell =>
    have heven : (Value.none != .none && !isOne .none) = false := rfl
    simp only [labelRange, asByteRange, cell, heven, Bool.false_eq_true, if_false, if_neg starts,
      if_neg stops, contain_bounds]
  | table cell =>
    obtain ⟨l, rfl, hl⟩ := exists_of_cell? cell
    simp only [labelRange, cell]
    rw [byteRange, record_of_table _ hl rfl]
    exact byteRangeFields_of_lookup rfl rfl

/-! ## Data around a range -/

/-- A value that is written as a field is put there. -/
theorem exists_put_of_written {name : String} (h : σ.Written r [.field name] v w) :
    ∃ es, σ.cell? v = some (.table es) ∧ σ.cell? w = some (.table (Json.put name r es)) := by
  cases h with
  | entry cell written => exact ⟨_, cell, written⟩
  | field cell _ inner written =>
    cases inner
    exact ⟨_, cell, written⟩

/-- A label depends on the check of its range. -/
theorem label_eq_of_written (hr : labelRange source σ r = labelRange source σ r')
    (h : σ.Written r [.field "range"] u x) (h' : σ.Written r' [.field "range"] u y) :
    label source σ x = label source σ y := by
  obtain ⟨es, hu, hx⟩ := exists_put_of_written h
  obtain ⟨es', hu', hy⟩ := exists_put_of_written h'
  obtain rfl := Cell.table.inj (Option.some.inj (hu.symm.trans hu'))
  obtain ⟨l, rfl, hl⟩ := exists_of_cell? hx
  obtain ⟨k, rfl, hk⟩ := exists_of_cell? hy
  have hother : ∀ name, name ≠ "range" →
      (Json.put "range" r es).lookup name = (Json.put "range" r' es).lookup name := fun name hne => by
    rw [Json.lookup_put_of_ne hne, Json.lookup_put_of_ne hne]
  rw [label, label, record_of_table _ hl rfl, record_of_table _ hk rfl]
  simp only [labelFields, required, optional, hother "style" (by decide),
    hother "file_id" (by decide), hother "message" (by decide), Json.lookup_put_self, hr]

/-- A list depends on the checks of its items. -/
theorem listOf_eq_of_written {check : Store → Value → Check α} {i : Nat} {path : List PathStep}
    (hitem : ∀ u x y, σ.Written r path u x → σ.Written r' path u y → check σ x = check σ y)
    (h : σ.Written r (.index i :: path) u x) (h' : σ.Written r' (.index i :: path) u y) :
    listOf source check σ x = listOf source check σ y := by
  cases h with
  | @item make _ _ _ _ z a items row cell hz inner written =>
  cases h' with
  | @item make' _ _ _ _ z' b items' row' cell' hz' inner' written' =>
  obtain ⟨rfl, rfl⟩ := row.eq_of_eq row' (Option.some.inj (cell.symm.trans cell'))
  obtain rfl := Option.some.inj (hz.symm.trans hz')
  rw [listOf, listOf, listElements?_of_row row written, listElements?_of_row row written']
  refine each_congr ?_ 0
  rw [List.map_set, List.map_set, hitem z a b inner inner']

/-- What is no sequence that is being used up keeps its content. -/
theorem cell?_leave {n : Value} (h : n = x → ∀ rest, σ.cell? x ≠ some (.iterator rest))
    (us : List Value) : (σ.leave x us).cell? n = σ.cell? n := by
  by_cases hx : ∃ before, σ.cell? x = some (.iterator before)
  · obtain ⟨before, hbefore⟩ := hx
    obtain ⟨l, rfl, hl⟩ := exists_of_cell? hbefore
    rw [leave_iterator hl]
    cases n with
    | object k => exact get?_update_ne σ _ fun hlk => h (congrArg Value.object hlk.symm) _ hbefore
    | _ => rfl
  · rw [leave_other fun before hbefore => hx ⟨before, hbefore⟩]

/-- Notes apart from the labels are checked as they were before the labels were used up. -/
theorem notes_of_apart (hv : σ.cell? v = some (.table entries)) (h : σ.Apart v) :
    notes source (spendLabels source σ entries) entries = notes source σ entries := by
  refine (notes_of_akin (spendLabels_akin source σ entries) fun n hn => ?_).symm
  rw [spendLabels]
  rcases hlabels : entries.lookup "labels" with _ | u
  · rfl
  · dsimp only
    rw [spend]
    split
    · refine (cell?_leave (fun hnu => h entries u hv hlabels ?_) _).symm
      rwa [← hnu]
    · rfl

theorem unread_of_not_aborted {β : Type} {f : α → Check β} {as : List α} {i : Nat}
    (h : (Check.each f i as).isAborted = false) : Check.unread f as = [] := by
  induction as generalizing i with
  | nil => rfl
  | cons a as ih =>
    rw [Check.each] at h
    rw [Check.unread]
    cases ha : f a <;> cases hrest : Check.each f (i + 1) as <;> simp only [ha, hrest, Check.under,
      Check.both, Check.map, Check.isAborted, Bool.true_eq_false] at h <;>
      exact ih (by rw [hrest]; rfl)

/-- Notes that are the same one-shot sequence as the labels are found used up. -/
theorem notes_of_shared {items : List Value} (hlabels : entries.lookup "labels" = some u)
    (hnotes : entries.lookup "notes" = some u) (hu : σ.cell? u = some (.iterator items))
    (h : (labels source σ entries).isAborted = false) :
    notes source (spendLabels source σ entries) entries = .valid [] := by
  obtain ⟨l, rfl, hl⟩ := exists_of_cell? hu
  have hitems := listElements?_of_row .iterator hu
  have hunread : Check.unread (label source σ) items = [] := by
    refine unread_of_not_aborted (i := 0) ?_
    rw [labels, optional, hlabels] at h
    dsimp only at h
    rw [listOf, hitems] at h
    dsimp only at h
    cases heach : Check.each (label source σ) 0 items <;> rw [heach] at h <;> first | rfl | exact h
  have hleft : (spendLabels source σ entries).cell? (.object l) = some (.iterator []) := by
    rw [spendLabels, hlabels]
    dsimp only
    rw [spend, hitems]
    dsimp only
    rw [hunread, leave_iterator hl]
    exact get?_update_self σ _ (lt_size_of_get? hl)
  rw [notes, optional, hnotes]
  dsimp only
  rw [listOf, listElements?_of_row .iterator hleft]
  rfl

/-- Fields are checked the same when their labels are, and all else is. -/
theorem diagnosticFields_congr {es es' : List (String × Value)}
    (hother : ∀ name, name ≠ "labels" → name ≠ "notes" → es.lookup name = es'.lookup name)
    (hlabels : labels source σ es = labels source σ es')
    (hnotes : (labels source σ es').isAborted = false →
      notes source (spendLabels source σ es) es = notes source (spendLabels source σ es') es') :
    diagnosticFields source σ es = diagnosticFields source σ es' := by
  rw [diagnosticFields, diagnosticFields]
  simp only [required, optional, hother "severity" (by decide) (by decide),
    hother "code" (by decide) (by decide), hother "message" (by decide) (by decide), hlabels]
  cases haborted : (labels source σ es').isAborted with
  | false => rw [hnotes haborted]
  | true =>
    -- notes are not reached after labels that end the check
    cases hcheck : labels source σ es' with
    | aborted e => rfl
    | _ => rw [hcheck] at haborted; cases haborted

/-- A one-shot sequence with an item written anew is another one. -/
theorem exists_iterator_of_written {i : Nat} {path : List PathStep} {items : List Value}
    (hu : σ.cell? u = some (.iterator items)) (h : σ.Written r (.index i :: path) u x) :
    ∃ rest, σ.cell? x = some (.iterator rest) := by
  cases h with
  | item row cell item inner written =>
    obtain ⟨rfl, rfl⟩ := row.eq_of_eq .iterator (Option.some.inj (cell.symm.trans hu))
    exact ⟨_, written⟩

/-- Labels depend on the check of the range of one of them. -/
theorem labels_eq_of_written {i : Nat} (hr : labelRange source σ r = labelRange source σ r')
    {es es' : List (String × Value)} (h : σ.Written r [.index i, .field "range"] u x)
    (h' : σ.Written r' [.index i, .field "range"] u y) (hx : es.lookup "labels" = some x)
    (hy : es'.lookup "labels" = some y) : labels source σ es = labels source σ es' := by
  rw [labels, labels, optional, optional, hx, hy]
  exact congrArg (Check.under (.field "labels"))
    (listOf_eq_of_written (fun _ _ _ => label_eq_of_written hr) h h')

theorem diagnostic_eq_of_fields {es es' : List (String × Value)}
    (hw : σ.cell? w = some (.table es)) (hy : σ.cell? y = some (.table es'))
    (h : diagnosticFields source σ es = diagnosticFields source σ es') :
    diagnostic source σ w = diagnostic source σ y := by
  obtain ⟨l, rfl, hl⟩ := exists_of_cell? hw
  obtain ⟨k, rfl, hk⟩ := exists_of_cell? hy
  rw [diagnostic, diagnostic, record_of_table _ hl rfl, record_of_table _ hk rfl, h]

/-- Notes apart from the labels do not change with a range. -/
theorem diagnostic_eq_of_apart {i : Nat} (hr : labelRange source σ r = labelRange source σ r')
    (hw : σ.Apart w) (hy : σ.Apart y) (h : σ.Written r (rangeOfLabel i) v w)
    (h' : σ.Written r' (rangeOfLabel i) v y) : diagnostic source σ w = diagnostic source σ y := by
  cases h with
  | field cell value inner written =>
  cases h' with
  | field cell' value' inner' written' =>
  obtain rfl := Cell.table.inj (Option.some.inj (cell.symm.trans cell'))
  obtain rfl := Option.some.inj (value.symm.trans value')
  refine diagnostic_eq_of_fields written written' (diagnosticFields_congr (fun name hname _ => ?_)
    (labels_eq_of_written hr inner inner' (Json.lookup_put_self ..) (Json.lookup_put_self ..))
    fun _ => ?_)
  · rw [Json.lookup_put_of_ne hname, Json.lookup_put_of_ne hname]
  · rw [notes_of_apart written hw, notes_of_apart written' hy, notes, notes, optional, optional,
      Json.lookup_put_of_ne (by decide), Json.lookup_put_of_ne (by decide)]

/-- Notes that are the same one-shot sequence as the labels are gone, whatever the range. -/
theorem diagnostic_eq_of_shared {i : Nat} {a b : Value} {items : List Value}
    (hr : labelRange source σ r = labelRange source σ r') (hu : σ.cell? u = some (.iterator items))
    (h : σ.Written r [.index i, .field "range"] u a)
    (h' : σ.Written r' [.index i, .field "range"] u b)
    (hw : σ.cell? w = some (.table (Json.put "notes" a (Json.put "labels" a entries))))
    (hy : σ.cell? y = some (.table (Json.put "notes" b (Json.put "labels" b entries)))) :
    diagnostic source σ w = diagnostic source σ y := by
  obtain ⟨rest, ha⟩ := exists_iterator_of_written hu h
  obtain ⟨rest', hb⟩ := exists_iterator_of_written hu h'
  have hput (c : Value) :
      (Json.put "notes" c (Json.put "labels" c entries)).lookup "labels" = some c := by
    rw [Json.lookup_put_of_ne (by decide), Json.lookup_put_self]
  have hlabels := labels_eq_of_written hr h h' (hput a) (hput b)
  refine diagnostic_eq_of_fields hw hy
    (diagnosticFields_congr (fun name hname hname' => ?_) hlabels fun hended => ?_)
  · rw [Json.lookup_put_of_ne hname', Json.lookup_put_of_ne hname, Json.lookup_put_of_ne hname',
      Json.lookup_put_of_ne hname]
  · rw [notes_of_shared (hput a) (Json.lookup_put_self ..) ha (hlabels ▸ hended),
      notes_of_shared (hput b) (Json.lookup_put_self ..) hb hended]

/-- **Ranges.** Data depends on the check of the range of one of its labels. -/
theorem diagnostic_eq_of_rangeWritten {i : Nat}
    (hr : labelRange source σ r = labelRange source σ r')
    (h : σ.RangeWritten r i v w) (h' : σ.RangeWritten r' i v y) :
    diagnostic source σ w = diagnostic source σ y := by
  -- notes go with the labels in both or in neither
  cases h with
  | apart before after written =>
    cases h' with
    | apart _ after' written' => exact diagnostic_eq_of_apart hr after after' written written'
    | shared cell labels notes oneShot => exact absurd oneShot (before _ _ cell labels notes _)
  | shared cell labels notes oneShot inner written =>
    cases h' with
    | apart before => exact absurd oneShot (before _ _ cell labels notes _)
    | shared cell' labels' _ _ inner' written' =>
      obtain rfl := Cell.table.inj (Option.some.inj (cell.symm.trans cell'))
      obtain rfl := Option.some.inj (labels.symm.trans labels')
      exact diagnostic_eq_of_shared hr oneShot inner inner' written written'

/-- To check data only uses up one-shot sequences. -/
theorem spendDiagnostic_akin (source : Source) (σ : Store) (v : Value) :
    σ.Akin (spendDiagnostic source σ v) := by
  rw [spendDiagnostic]
  split
  · next entries _ =>
    have hlabels := spendLabels_akin source σ entries
    rw [spendFields]
    split
    · exact hlabels
    · split
      · exact hlabels.trans (spend_akin ..)
      · exact hlabels
  · exact .refl σ

end Validation

end Diagnostics
