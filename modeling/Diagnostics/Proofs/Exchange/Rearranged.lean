import Diagnostics.Proofs.Builder.OneByOne
import Diagnostics.Proofs.Exchange.Spellings
import Diagnostics.Proofs.Json.OneLine
import Diagnostics.Proofs.Json.Rearranged

/-!
# Diagnostics do not depend on the order of keys or on keys that nobody looks for

Texts of similar JSON come to the same (`load_same_of_similar`). So the keys of a diagnostic, of its
labels and of their ranges may be put in any order, and other keys may be added, with any values
that the reader takes (`load_edited`). A number that is too long for the reader makes the whole text
unreadable, even under a key that nobody looks for, and what is said of it tells its place in the
text (`load_noteWithNumber_ne`).
-/

namespace Diagnostics

namespace Exchange

open Json (Edited)

/-- Texts of similar JSON come to the same. -/
theorem load_same_of_similar {text text' : String} {i j : Json}
    (h : Json.Similar Validation.diagnosticShape i j) (hread : Json.read .standard text = .ok i)
    (hread' : Json.read .standard text' = .ok j) (σ τ : Store) :
    (load (.text text) σ).Same (load (.text text') τ) := by
  obtain ⟨-, hi⟩ := ofJson_shows .empty i
  obtain ⟨-, hj⟩ := ofJson_shows .empty j
  have hagree := Validation.diagnostic_agrees_of_similar .json .json h hi hj
  have hleft := load_follows hread hi σ
  have hright := load_follows hread' hj τ
  generalize Validation.diagnostic .json (ofJson .empty i).2 (ofJson .empty i).1 = left
    at hagree hleft
  generalize Validation.diagnostic .json (ofJson .empty j).2 (ofJson .empty j).1 = right
    at hagree hright
  cases hagree with
  | valid related =>
    obtain ⟨a, b, ha, hb, hsame⟩ := related
    cases hleft with
    | valid draft yields =>
      cases hright with
      | valid draft' yields' =>
        rw [draft.eq ha] at yields
        rw [draft'.eq hb] at yields'
        obtain ⟨v, d, hv, hview, hunmarked⟩ := yields'
        exact .diagnostics yields ⟨v, d, hv, hview, hunmarked.trans hsame.symm⟩
  | @invalid is js issues =>
    obtain rfl : is = js := by
      rw [← List.forall₂_eq_eq_eq]
      exact issues.imp fun _ _ => Issue.Agree.eq
    cases hleft with
    | invalid result =>
      cases hright with
      | invalid result' => exact .failures result result'
  | aborted e =>
    cases hleft with
    | aborted result =>
      cases hright with
      | aborted result' => exact .failures result result'

/-- A text is JSON when it is read by itself. -/
theorem read_eq_ok_iff_reads {text : String} {j : Json} :
    Json.read .standard text = .ok j ↔
      Json.Reads .characters .standard Json.Limits.standard.depth text.toList j :=
  Json.read_eq_ok.trans Json.document_eq_ok_iff

/-! ## Texts on one line -/

/-- A key with its colon, written without space. -/
def keyText (name : String) : List Char :=
  '"' :: (name.toList.flatMap (Json.escaped false) ++ ['"', ':'])

/-- A member, written without space. -/
def member (name : String) (value : List Char) (spells : ∃ j, Json.Spells .characters value j) :
    Json.Member .characters where
  name := name
  key := keyText name
  value := value
  names := by
    rw [Json.Names, keyText, Json.skip_cons _ (by decide), Json.key, if_pos rfl, Json.quoted_text]
    rfl
  spells := spells

/-- The text of an object, written without space. -/
def objectText (ms : List (Json.Member .characters)) : List Char :=
  '\x7b' :: (Json.joined (ms.map Json.Member.spelling) ++ ['}'])

theorem objectText_enclosed (ms : List (Json.Member .characters)) :
    Json.Enclosed '\x7b' '}' (ms.map Json.Member.spelling) (objectText ms) :=
  ⟨[], [], [], rfl, rfl, rfl, rfl⟩

theorem objectText_edited {limits : Json.Limits} {depth : Nat} {known : List String}
    {field : String → Json.Shape} {ms kept added ms' : List (Json.Member .characters)}
    (h : Json.Rearranged limits depth known
      (fun name => Edited .characters limits (field name) (depth - 1)) ms kept added ms') :
    Edited .characters limits (.record known field) depth (objectText ms) (objectText ms') :=
  .inr ⟨ms, kept, added, ms', objectText_enclosed ms, objectText_enclosed ms', h⟩

-- the members of a note with a label, and one that nobody looks for
def severityMember := member "severity" "\"note\"".toList ⟨.text "note", .standard, by decide +kernel⟩
def styleMember := member "style" "\"primary\"".toList ⟨.text "primary", .standard, by decide +kernel⟩
def fileMember := member "file_id" "0".toList ⟨.int 0, .standard, by decide +kernel⟩
def startMember := member "start" "0".toList ⟨.int 0, .standard, by decide +kernel⟩
def endMember := member "end" "1".toList ⟨.int 1, .standard, by decide +kernel⟩
def otherMember := member "other" "null".toList ⟨.null, .standard, by decide +kernel⟩

/-- A range, with its keys in order. -/
def rangeMember :=
  member "range" (objectText [startMember, endMember]) (Json.exists_spells (by decide +kernel))

/-- The same range, with its keys out of order and another between them. -/
def rangeMember' :=
  member "range" (objectText [endMember, otherMember, startMember])
    (Json.exists_spells (by decide +kernel))

/-- A label, with its keys in order. -/
def labelText := objectText [styleMember, fileMember, rangeMember]

/-- The same label, with its keys out of order and others between them. -/
def labelText' := objectText [rangeMember', fileMember, styleMember, otherMember]

def labelsMember :=
  member "labels" ('[' :: (labelText ++ [']'])) (Json.exists_spells (by decide +kernel))

def labelsMember' :=
  member "labels" ('[' :: (labelText' ++ [']'])) (Json.exists_spells (by decide +kernel))

theorem otherMember_unknown (depth : Nat) {known : List String} (hknown : "other" ∉ known) :
    ∀ m ∈ [otherMember], m.name ∉ known ∧
      ∃ j, Json.ReadsWithin .characters .standard (depth + 1) m.value j := by
  exact List.forall_mem_singleton.2 ⟨hknown, .null, Nat.succ_pos _, [], rfl, rfl⟩

/-- The keys of the range are exchanged. -/
theorem range_edited (depth : Nat) :
    Edited .characters .standard Validation.rangeShape (depth + 1) rangeMember.value
      rangeMember'.value := by
  refine objectText_edited (.of_distinct [startMember, endMember] [otherMember] ?_
    (otherMember_unknown depth (by decide)) ?_ ?_)
  · exact .cons ⟨rfl, .refl ..⟩ (.cons ⟨rfl, .refl ..⟩ .nil)
  · exact List.perm_append_singleton startMember [endMember, otherMember]
  · simp [startMember, endMember, member]

/-- The keys of the label are exchanged, and its range is edited. -/
theorem label_edited (depth : Nat) :
    Edited .characters .standard Validation.labelShape (depth + 2) labelText labelText' := by
  refine objectText_edited (.of_distinct [styleMember, fileMember, rangeMember'] [otherMember] ?_
    (otherMember_unknown (depth + 1) (by decide)) ?_ ?_)
  · have hname : rangeMember.name = "range" := rfl
    have hname' : rangeMember'.name = "range" := rfl
    refine .cons ⟨rfl, .refl ..⟩ (.cons ⟨rfl, .refl ..⟩
      (.cons ⟨hname.trans hname'.symm, ?_⟩ .nil))
    rw [if_pos hname]
    exact range_edited depth
  · exact (List.reverse_perm [styleMember, fileMember, rangeMember']).append_right [otherMember]
  · simp [styleMember, fileMember, rangeMember', member]

/-- The list of labels has the edited label for its item. -/
theorem labels_edited (depth : Nat) :
    Edited .characters .standard (.items Validation.labelShape) (depth + 3) labelsMember.value
      labelsMember'.value := by
  have hlabel : ∃ j, Json.Spells .characters labelText j := Json.exists_spells (by decide +kernel)
  have hlabel' : ∃ j, Json.Spells .characters labelText' j :=
    Json.exists_spells (by decide +kernel)
  refine .inr ⟨[labelText], [labelText'], ⟨[], [], [], rfl, rfl, rfl, rfl⟩,
    ⟨[], [], [], rfl, rfl, rfl, rfl⟩, List.forall_mem_singleton.2 hlabel,
    List.forall_mem_singleton.2 hlabel', .cons (label_edited depth) .nil⟩

/-- A note with a label. -/
def plainNote : String := "\x7b\"severity\":\"note\",\"labels\":[" ++
  "\x7b\"style\":\"primary\",\"file_id\":0,\"range\":\x7b\"start\":0,\"end\":1\x7d\x7d]\x7d"

/-- The same note with all keys in another order and with others between them. -/
def shuffledNote : String := "\x7b\"other\":null,\"labels\":[" ++
  "\x7b\"range\":\x7b\"end\":1,\"other\":null,\"start\":0\x7d,\"file_id\":0,\"style\":\"primary\"," ++
  "\"other\":null\x7d],\"severity\":\"note\"\x7d"

/-- The diagnostic has the edited labels, and another key among its own. -/
theorem note_edited :
    Edited .characters .standard Validation.diagnosticShape Json.Limits.standard.depth
      plainNote.toList shuffledNote.toList := by
  have hold : plainNote.toList = objectText [severityMember, labelsMember] := by decide +kernel
  have hnew : shuffledNote.toList =
      objectText [otherMember, labelsMember', severityMember] := by decide +kernel
  rw [hold, hnew]
  refine objectText_edited (.of_distinct [severityMember, labelsMember'] [otherMember] ?_
    (otherMember_unknown 199 (by decide)) ?_ ?_)
  · have hname : labelsMember.name = "labels" := rfl
    have hname' : labelsMember'.name = "labels" := rfl
    refine .cons ⟨rfl, .refl ..⟩ (.cons ⟨hname.trans hname'.symm, ?_⟩ .nil)
    rw [if_pos hname]
    exact labels_edited 196
  · exact List.reverse_perm [severityMember, labelsMember', otherMember]
  · simp [severityMember, labelsMember', member]

/-! ## Numbers that are too long -/

/-- Limits under which a number is read, whatever its length. -/
def limitsFor (n : Int) : Json.Limits := ⟨Json.Limits.standard.depth, (Digits.text n).length⟩

theorem reads_limitsFor (n : Int) (depth : Nat) :
    Json.Reads .characters (limitsFor n) depth (Digits.text n) (.int n) :=
  Json.reads_integer_iff.2 ⟨Nat.le_refl _, rfl⟩

/-- A member that nobody looks for, with a number. -/
def numberMember (n : Int) : Json.Member .characters :=
  member "number" (Digits.text n) ⟨_, (reads_limitsFor n 0).spells⟩

/-- A note with a number added to it. -/
def noteWithNumber (n : Int) : String :=
  String.ofList (objectText [severityMember, numberMember n])

/-- The same note with the number in front. -/
def numberFirst (n : Int) : String :=
  String.ofList (objectText [numberMember n, severityMember])

theorem noteWithNumber_edited (n : Int) :
    Edited .characters .standard Validation.diagnosticShape Json.Limits.standard.depth
      (noteWithNumber n).toList (numberFirst n).toList := by
  rw [noteWithNumber, numberFirst, String.toList_ofList, String.toList_ofList]
  refine objectText_edited (.of_distinct [severityMember, numberMember n] [] ?_
    (List.forall_mem_nil _) (.swap _ _ []) ?_)
  · exact .cons ⟨rfl, .refl ..⟩ (.cons ⟨rfl, .refl ..⟩ .nil)
  · simp [severityMember, numberMember, member]

theorem noteText_edited (n : Int) :
    Edited .characters (limitsFor n) Validation.diagnosticShape Json.Limits.standard.depth
      noteText.toList (noteWithNumber n).toList := by
  have htext : noteText.toList = objectText [severityMember] := by decide +kernel
  rw [noteWithNumber, String.toList_ofList, htext]
  refine objectText_edited (.of_distinct [severityMember] [numberMember n] ?_ ?_ (.refl _) ?_)
  · exact .cons ⟨rfl, .refl ..⟩ .nil
  · refine List.forall_mem_singleton.2 ⟨?_, .int n, by decide, reads_limitsFor n 199⟩
    simp [numberMember, member]
  · exact List.pairwise_singleton _ _

/-- On a line of ASCII a column counts characters. -/
theorem advance_of_isLine {cs : List Char} {k : Nat} (h : Json.IsLine true cs) (hk : k < cs.length)
    (p : Json.Position) :
    Json.Position.advance .characters p cs k = ⟨p.line, p.column + k + 1⟩ := by
  induction cs generalizing k p with
  | nil => exact absurd hk (Nat.not_lt_zero k)
  | cons c cs ih =>
    obtain ⟨hc, hcs⟩ := List.forall_mem_cons.1 h
    have hline : c ≠ '\n' := by
      rintro rfl
      exact absurd hc.1 (by decide)
    have hascii : c.val ≤ 0x7f := by
      have hprintable := hc.2 rfl
      simp only [Char.toNat] at hprintable
      rw [UInt32.le_iff_toNat_le]
      exact Nat.le_trans hprintable (by decide)
    have hwidth : Json.Encoding.characters.width c = 1 := if_pos hascii
    cases k with
    | zero => simp [Json.Position.advance, hline]
    | succ k =>
      rw [Json.Position.advance, if_neg hline, hwidth, ih hcs (Nat.lt_of_succ_lt_succ hk)]
      simp only [Json.Position.mk.injEq, true_and]
      omega

/-- A number that is too long is refused behind the characters that are allowed and one more. -/
theorem before_long {n : Int} {front tail : List Char}
    (hlong : Json.Limits.standard.characters < (Digits.text n).length) (htail : tail ≠ [])
    (hfront : Json.IsLine true front) (hline : Json.IsLine true tail) :
    Json.Position.before .characters (front ++ (Digits.text n ++ tail))
        ((Digits.text n ++ tail).drop (Json.Limits.standard.characters + 1)) =
      ⟨1, front.length + Json.Limits.standard.characters + 2⟩ := by
  have htail := List.length_pos_iff.2 htail
  have htext : Json.IsLine true (front ++ (Digits.text n ++ tail)) :=
    hfront.append ((Json.isLine_integer n).append hline)
  have hcount : (front ++ (Digits.text n ++ tail)).length -
      ((Digits.text n ++ tail).drop (Json.Limits.standard.characters + 1)).length =
        front.length + Json.Limits.standard.characters + 1 := by
    simp only [List.length_append, List.length_drop]
    omega
  rw [Json.Position.before, hcount, advance_of_isLine htext]
  · simp only [Json.Position.mk.injEq, true_and]
    omega
  · simp only [List.length_append]
    omega

/-- An object with too long a number in it is not read. -/
theorem exists_fault_of_long {n : Int} (hlong : Json.Limits.standard.characters < (Digits.text n).length)
    {ms : List (Json.Member .characters)} (h : numberMember n ∈ ms) :
    ∃ fault, Json.read .standard (String.ofList (objectText ms)) = .error fault := by
  rcases hread : Json.read .standard (String.ofList (objectText ms)) with fault | j
  · exact ⟨fault, rfl⟩
  · have hreads := read_eq_ok_iff_reads.1 hread
    rw [String.toList_ofList] at hreads
    obtain ⟨es, -, hes⟩ := (Json.reads_object_iff (objectText_enclosed ms)).1 hreads
    obtain ⟨x, -, -, -, hx⟩ := exists_of_mem_left hes h
    exact absurd (Json.reads_integer_iff.1 hx).1 (Nat.not_le.2 hlong)

/-- Of a number that is too long is said where in the text it is. -/
theorem load_of_long {n : Int}
    (hlong : Json.Limits.standard.characters < (Digits.text n).length)
    {before : List (Json.Member .characters)} {c : Char} (tail : List Char)
    (hbefore : ∀ m ∈ before, ∃ entry, m.Reads .standard Json.Limits.standard.depth entry)
    (hc : c = ',' ∨ c = ']' ∨ c = '}') (htail : Json.IsLine true (c :: tail))
    (hfront : Json.IsLine true (Json.withCommas (before.map Json.Member.spelling))) (σ : Store) :
    (load (.text (String.ofList ('\x7b' :: (Json.withCommas (before.map Json.Member.spelling) ++
        ((numberMember n).spelling ++ c :: tail))))) σ).result =
      .error (.invalid "Diagnostic" [⟨[], .malformedJson .numberTooLong
        ⟨1, (Json.withCommas (before.map Json.Member.spelling)).length + 4312⟩⟩]) := by
  have hstop : Json.valueIn .characters .standard (Json.Limits.standard.depth - 1)
      (Json.skip ((numberMember n).value ++ c :: tail)) = .error ⟨.numberTooLong,
        (Digits.text n ++ c :: tail).drop (Json.Limits.standard.characters + 1)⟩ :=
    (Json.valueIn_integer ..).trans (Json.scalar_integer_long hlong (Json.ends_of_sign hc tail))
  have hdocument := Json.document_stop hbefore (by decide) hstop
  have hline : Json.IsLine true ('\x7b' :: (Json.withCommas (before.map Json.Member.spelling) ++
      keyText "number")) := (hfront.append (by decide)).cons (by decide)
  have hposition := before_long hlong (List.cons_ne_nil c tail) hline htail
  have htext : '\x7b' :: (Json.withCommas (before.map Json.Member.spelling) ++ keyText "number") ++
      (Digits.text n ++ c :: tail) =
        '\x7b' :: (Json.withCommas (before.map Json.Member.spelling) ++
          ((numberMember n).spelling ++ c :: tail)) := by
    simp [Json.Member.spelling, numberMember, member]
  have hkey : (keyText "number").length = 9 := by decide +kernel
  rw [htext] at hposition
  apply load_of_fault
  simp only [Json.read, Json.readUnits, String.toList_ofList, hdocument, hposition]
  simp only [List.length_cons, List.length_append, hkey, Json.Limits.standard]

/-- A number that is too long has the text refused, at a place within the number. -/
theorem load_noteWithNumber {n : Int}
    (hlong : Json.Limits.standard.characters < (Digits.text n).length) (σ : Store) :
    (load (.text (noteWithNumber n)) σ).result =
      .error (.invalid "Diagnostic" [⟨[], .malformedJson .numberTooLong ⟨1, 4330⟩⟩]) := by
  have hread : ∀ m ∈ [severityMember], ∃ entry,
      m.Reads .standard Json.Limits.standard.depth entry :=
    List.forall_mem_singleton.2 ⟨("severity", .text "note"), rfl, by decide, [], by decide +kernel, rfl⟩
  have hload := load_of_long hlong [] hread (.inr (.inr rfl)) (by decide) (by decide) σ
  have hlength : (Json.withCommas ([severityMember].map Json.Member.spelling)).length = 18 := by
    decide
  rw [hlength] at hload
  rw [noteWithNumber, ← hload]
  simp [objectText, Json.joined, Json.withCommas]

/-- The text with the number in front is refused too, at another place. -/
theorem load_numberFirst {n : Int}
    (hlong : Json.Limits.standard.characters < (Digits.text n).length) (σ : Store) :
    (load (.text (numberFirst n)) σ).result =
      .error (.invalid "Diagnostic" [⟨[], .malformedJson .numberTooLong ⟨1, 4312⟩⟩]) := by
  have hload := load_of_long hlong (severityMember.spelling ++ ['}']) (List.forall_mem_nil _)
    (.inl rfl) (by decide) (by decide) σ
  have hlength : (Json.withCommas (([] : List (Json.Member .characters)).map
      Json.Member.spelling)).length = 0 := rfl
  rw [hlength, Nat.zero_add] at hload
  rw [numberFirst, ← hload]
  simp [objectText, Json.joined, Json.withCommas]

theorem longNumber_long :
    Json.Limits.standard.characters < (Digits.text Builder.longNumber).length := by
  rw [Digits.length_text]
  exact Nat.lt_add_right _ (Builder.lt_count_pow (by decide))

/-! ## Order and unknown keys -/

/-- **Order and unknown keys.** A text and the text with the keys of the diagnostic, of its labels
and of their ranges in another order, and with other keys added, come to the same if the text is
JSON. If it is none, because it is nested too deep or holds too long a number, neither of them is. -/
theorem load_edited {text text' : String}
    (h : Edited .characters .standard Validation.diagnosticShape Json.Limits.standard.depth
      text.toList text'.toList) (σ τ : Store) :
    (∀ i, Json.read .standard text = .ok i →
        (∃ j, Json.read .standard text' = .ok j) ∧
          (load (.text text) σ).Same (load (.text text') τ)) ∧
      ∀ fault, Json.read .standard text = .error fault →
        ∃ a b : Issue, (load (.text text) σ).result = .error (.invalid "Diagnostic" [a]) ∧
          (load (.text text') τ).result = .error (.invalid "Diagnostic" [b]) ∧
            a.mark = ("json_invalid", []) ∧ b.mark = ("json_invalid", []) := by
  have hcarries := h.carries
  constructor
  · intro i hi
    obtain ⟨j, hj, hsimilar⟩ := hcarries.similar i (read_eq_ok_iff_reads.1 hi)
    have hj := read_eq_ok_iff_reads.2 hj
    exact ⟨⟨j, hj⟩, load_same_of_similar hsimilar hi hj σ τ⟩
  · rintro ⟨fault, position⟩ hfault
    rcases hread : Json.read .standard text' with ⟨fault', position'⟩ | j
    · exact ⟨_, _, load_of_fault hfault σ, load_of_fault hread τ, rfl, rfl⟩
    · obtain ⟨i, hi⟩ := hcarries.back j (read_eq_ok_iff_reads.1 hread)
      cases hfault.symm.trans (read_eq_ok_iff_reads.2 hi)

/-- A note comes to the same with its keys in another order, and with others between them. A note
with a number that is too long is refused wherever the number stands. -/
theorem load_edited_shuffled :
    ((∃ j, Json.read .standard shuffledNote = .ok j) ∧
        (load (.text plainNote) .empty).Same (load (.text shuffledNote) .empty)) ∧
      ∃ a b : Issue,
        (load (.text (noteWithNumber Builder.longNumber)) .empty).result =
            .error (.invalid "Diagnostic" [a]) ∧
          (load (.text (numberFirst Builder.longNumber)) .empty).result =
              .error (.invalid "Diagnostic" [b]) ∧
            a.mark = ("json_invalid", []) ∧ b.mark = ("json_invalid", []) := by
  have hread : Json.read .standard plainNote = .ok (.object [("severity", .text "note"),
      ("labels", .array [.object [("style", .text "primary"), ("file_id", .int 0),
        ("range", .object [("start", .int 0), ("end", .int 1)])]])]) := by decide +kernel
  obtain ⟨fault, hfault⟩ := exists_fault_of_long longNumber_long
    (List.mem_cons_of_mem severityMember List.mem_cons_self)
  exact ⟨(load_edited note_edited .empty .empty).1 _ hread,
    (load_edited (noteWithNumber_edited Builder.longNumber) .empty .empty).2 fault hfault⟩

/-- A note is refused for a number that is too long, although nobody looks for its key, and what is
said of it moves with the number. -/
theorem load_noteWithNumber_ne :
    (Edited .characters (limitsFor Builder.longNumber) Validation.diagnosticShape
        Json.Limits.standard.depth noteText.toList (noteWithNumber Builder.longNumber).toList ∧
      (load (.text noteText) .empty).result = .ok (.object 3) ∧
      ∃ issues, (load (.text (noteWithNumber Builder.longNumber)) .empty).result =
        .error (.invalid "Diagnostic" issues)) ∧
    (Edited .characters .standard Validation.diagnosticShape Json.Limits.standard.depth
        (noteWithNumber Builder.longNumber).toList (numberFirst Builder.longNumber).toList ∧
      (load (.text (noteWithNumber Builder.longNumber)) .empty).result ≠
        (load (.text (numberFirst Builder.longNumber)) .empty).result) := by
  have hlast := load_noteWithNumber longNumber_long .empty
  have hfirst := load_numberFirst longNumber_long .empty
  refine ⟨⟨noteText_edited _, by decide +kernel, _, hlast⟩, noteWithNumber_edited _, ?_⟩
  rw [hlast, hfirst]
  intro h
  cases h

end Exchange

end Diagnostics
