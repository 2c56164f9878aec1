import Diagnostics.Proofs.Data.Literals
import Diagnostics.Proofs.Exchange.Content
import Diagnostics.Proofs.Json.Numbers
import Diagnostics.Proofs.Outline.Quoted

/-!
# What the outline of a diagnostic says

Native data and what a diagnostic holds have a spelling: their literal form without blanks outside
of quotes, where a record shows the fields that differ from their defaults (`fields`). The outline
of a diagnostic spells this (`Outline.spells_diagnostic`), unless an integer in it is too
long to be written.
-/

namespace Diagnostics

open Outline

/-! ## Spellings -/

namespace Data

mutual

/-- The literal form of native data without blanks. Of other data nothing is said. -/
def spelled : Data → List Char
  | bool b => (if b then "True" else "False").toList
  | int n => Digits.text n
  | text s => Quoted.text s
  | list ds => bareBranch ['['] [']'] false (spelledItems ds)
  | table es => bareBranch ['{'] ['}'] false (spelledEntries es)
  | _ => "None".toList

/-- The spellings of items in order. -/
def spelledItems : List Data → List (List Char)
  | [] => []
  | d :: ds => spelled d :: spelledItems ds

/-- The spellings of entries, each a key with its value. -/
def spelledEntries : List (String × Data) → List (List Char)
  | [] => []
  | (k, d) :: es => (Quoted.text k ++ [':'] ++ spelled d) :: spelledEntries es

end

@[simp] theorem spelledItems_eq_map (ds : List Data) : spelledItems ds = ds.map spelled := by
  induction ds with
  | nil => rfl
  | cons d ds ih => rw [spelledItems, ih, List.map_cons]

/-- The spelling of an entry. -/
def spelledEntry (e : String × Data) : List Char := Quoted.text e.1 ++ [':'] ++ e.2.spelled

@[simp] theorem spelledEntries_eq_map (es : List (String × Data)) :
    spelledEntries es = es.map spelledEntry := by
  induction es with
  | nil => rfl
  | cons e es ih => rw [spelledEntries, ih, List.map_cons, spelledEntry]

/-- The spelling of a member of an enumeration. -/
def spelledMember (enumeration name word : String) : List Char :=
  '<' :: (enumeration.toList ++ '.' :: (name.toList ++ ':' :: (Quoted.text word ++ ['>'])))

end Data

/-- The spelling of a field. -/
def spelledField (name : String) (value : List Char) : List Char := (name.toList ++ ['=']) ++ value

/-- The spelling of a record. -/
def spelledRecord (name : String) (fields : List (List Char)) : List Char :=
  bareBranch (name.toList ++ ['(']) [')'] false fields

/-- A field that a label shows. -/
inductive LabelField where
  | style (s : LabelStyle)
  | fileId (d : Data)
  | range (r : ByteRange)
  | message (s : String)

/-- The spelling of a field of a label. The range is a bare pair. -/
def LabelField.spelled : LabelField → List Char
  | style s => spelledField "style" (Data.spelledMember "LabelStyle" s.name s.word)
  | fileId d => spelledField "file_id" d.spelled
  | range r => spelledField "range"
      (bareBranch ['('] [')'] false [Digits.text r.start, Digits.text r.stop])
  | message s => spelledField "message" (Quoted.text s)

namespace LabelContent

/-- The fields that a label shows: an empty message is left out. -/
def fields (c : LabelContent) : List LabelField :=
  [.style c.style, .fileId c.fileId, .range c.range] ++
    if c.message = "" then [] else [.message c.message]

/-- The spelling of a label. -/
def spelled (c : LabelContent) : List Char :=
  spelledRecord "Label" (c.fields.map LabelField.spelled)

end LabelContent

/-- A field that a diagnostic shows. -/
inductive DiagnosticField where
  | severity (s : Severity)
  | code (s : String)
  | message (s : String)
  | labels (ls : List LabelContent)
  | notes (ns : List String)

/-- The spelling of a field of a diagnostic. -/
def DiagnosticField.spelled : DiagnosticField → List Char
  | severity s => spelledField "severity" (Data.spelledMember "Severity" s.name s.word)
  | code s => spelledField "code" (Quoted.text s)
  | message s => spelledField "message" (Quoted.text s)
  | labels ls => spelledField "labels" (bareBranch ['['] [']'] false (ls.map LabelContent.spelled))
  | notes ns => spelledField "notes" (bareBranch ['['] [']'] false (ns.map Quoted.text))

namespace DiagnosticContent

/-- The fields that a diagnostic shows: what is missing or empty is left out. -/
def fields (c : DiagnosticContent) : List DiagnosticField :=
  [.severity c.severity] ++ c.code.toList.map .code ++
    (if c.message = "" then [] else [.message c.message]) ++
    (if c.labels.isEmpty then [] else [.labels c.labels]) ++
    if c.notes.isEmpty then [] else [.notes c.notes]

/-- The spelling of a diagnostic. -/
def spelled (c : DiagnosticContent) : List Char :=
  spelledRecord "Diagnostic" (c.fields.map DiagnosticField.spelled)

end DiagnosticContent

/-! ## Outlines that spell -/

/-- Whether data has an outline that spells a text. -/
def Data.Spells (d : Data) (t : List Char) : Prop := ∃ o, ofData d = .ok o ∧ o.Spells t

namespace Data

theorem spells_leaf {d : Data} {xs t : List Char} (h : ofData d = .ok (leaf xs))
    (hbare : Bare xs t) : d.Spells t :=
  ⟨_, h, .leaf hbare⟩

theorem spells_text (s : String) : (text s).Spells (Quoted.text s) :=
  spells_leaf rfl (Quoted.bare_text s)

theorem bare_digits (n : Int) : Bare (Digits.text n) (Digits.text n) := by
  refine .of_forall fun c hc => ?_
  have hplain : c = '-' ∨ c.isDigit = true := by
    rw [Digits.text] at hc
    split at hc
    · exact (List.mem_cons.1 hc).imp_right Digits.isDigit_of_mem_digits
    · exact .inr (Digits.isDigit_of_mem_digits hc)
  obtain rfl | hdigit := hplain
  · decide
  · have hne {d : Char} (hd : d.isDigit = false) : c ≠ d := Json.ne_of_isDigit hdigit hd
    rw [Place.next, if_neg (not_or.2 ⟨hne (by decide), hne (by decide)⟩), Place.drops,
      beq_false_of_ne (hne (by decide)), beq_false_of_ne (hne (by decide))]
    exact ⟨rfl, rfl⟩

theorem spells_int {n : Int} (h : ¬ (int n).HasLong) : (int n).Spells (Digits.text n) := by
  have hshort : Digits.count n.natAbs ≤ digitLimit := Nat.not_lt.1 (mt hasLong_int.2 h)
  have hleaf : literalLeaf (int n) = leaf (Digits.text n) := by
    rw [literalLeaf, literal, integerText, if_pos hshort]
  exact spells_leaf (congrArg Except.ok hleaf) (bare_digits n)

theorem spells_severity (s : Severity) :
    (severity s).Spells (spelledMember "Severity" s.name s.word) :=
  spells_leaf rfl (by cases s <;> decide)

theorem spells_style (s : LabelStyle) :
    (style s).Spells (spelledMember "LabelStyle" s.name s.word) :=
  spells_leaf rfl (by cases s <;> decide)

theorem exists_ofItems {ds : List Data} {ts : List (List Char)} (h : List.Forall₂ Spells ds ts) :
    ∃ parts, ofItems ds = .ok parts ∧ List.Forall₂ PartSpells parts ts := by
  induction h with
  | nil => exact ⟨[], rfl, .nil⟩
  | cons hd _ ih =>
    obtain ⟨o, ho, hspells⟩ := hd
    obtain ⟨parts, hparts, hall⟩ := ih
    refine ⟨([], o) :: parts, ?_, .cons ⟨[], _, .nil, hspells, rfl⟩ hall⟩
    rw [ofItems, ho, hparts]
    rfl

theorem exists_ofEntries {es : List (String × Data)} (h : ∀ e ∈ es, e.2.Spells e.2.spelled) :
    ∃ parts, ofEntries es = .ok parts ∧ List.Forall₂ PartSpells parts (es.map spelledEntry) := by
  induction es with
  | nil => exact ⟨[], rfl, .nil⟩
  | cons e es ih =>
    obtain ⟨⟨o, ho, hspells⟩, hes⟩ := List.forall_mem_cons.1 h
    obtain ⟨parts, hparts, hall⟩ := ih hes
    have hkey : Bare (Quoted.text e.1 ++ [':', ' ']) (Quoted.text e.1 ++ [':']) :=
      (Quoted.bare_text e.1).append (by decide)
    refine ⟨(Quoted.text e.1 ++ [':', ' '], o) :: parts, ?_, .cons ⟨_, _, hkey, hspells, rfl⟩ hall⟩
    rw [ofEntries, ho, hparts]
    rfl

theorem spells_list {ds : List Data} {ts : List (List Char)} (h : List.Forall₂ Spells ds ts) :
    (list ds).Spells (bareBranch ['['] [']'] false ts) := by
  obtain ⟨parts, hparts, hall⟩ := exists_ofItems h
  refine ⟨bracket ['['] [']'] false "[]".toList parts, ?_, .bracket rfl rfl rfl hall⟩
  rw [ofData, hparts]
  rfl

theorem spells_tuple {ds : List Data} {ts : List (List Char)} (h : List.Forall₂ Spells ds ts) :
    (tuple ds).Spells (bareBranch ['('] [')'] true ts) := by
  obtain ⟨parts, hparts, hall⟩ := exists_ofItems h
  refine ⟨bracket ['('] [')'] true "()".toList parts, ?_, .bracket rfl rfl rfl hall⟩
  rw [ofData, hparts]
  rfl

/-- The list of what members show spells what they spell. -/
theorem spells_map {α : Type} {as : List α} {data : α → Data} {write : α → List Char}
    (h : ∀ a ∈ as, (data a).Spells (write a)) :
    (list (as.map data)).Spells (bareBranch ['['] [']'] false (as.map write)) :=
  spells_list (List.forall₂_map_left_iff.2 (List.forall₂_map_right_iff.2 (List.forall₂_same.2 h)))

theorem spells_table {es : List (String × Data)} (h : ∀ e ∈ es, e.2.Spells e.2.spelled) :
    (table es).Spells (bareBranch ['{'] ['}'] false (es.map spelledEntry)) := by
  obtain ⟨parts, hparts, hall⟩ := exists_ofEntries h
  refine ⟨bracket ['{'] ['}'] false ['{', '}'] parts, ?_, .bracket rfl rfl rfl hall⟩
  rw [ofData, hparts]
  rfl

/-- **Native data.** Its outline spells its literal form, if no integer is too long. -/
theorem spells_native {d : Data} (h : d.IsNative) (hshort : ¬ d.HasLong) : d.Spells d.spelled := by
  induction h with
  | none => exact spells_leaf rfl (by decide)
  | bool b => exact spells_leaf rfl (by cases b <;> decide)
  | int n => exact spells_int hshort
  | text s => exact spells_text s
  | list _ ih =>
    rw [spelled, spelledItems_eq_map]
    refine spells_list (List.forall₂_map_right_iff.2 (List.forall₂_same.2 fun d hd => ?_))
    exact ih d hd fun hlong => hshort (.held hd hlong)
  | table _ _ ih =>
    rw [spelled, spelledEntries_eq_map]
    refine spells_table fun e he => ih e he fun hlong => hshort ?_
    exact .held (List.mem_map_of_mem he) hlong

end Data

/-! ## Records -/

namespace Data.Part

/-- Whether a field is shown: it has no default, or differs from it. -/
def isShown (p : Part) : Bool := !(p.default?.any fun d => Data.equal d p.value)

/-- What a field spells: its name in front of what it holds. -/
def Spells (p : Part) (t : List Char) : Prop :=
  Bare (p.name.toList ++ ['=']) (p.name.toList ++ ['=']) ∧
    ∃ u, p.value.Spells u ∧ t = spelledField p.name u

end Data.Part

namespace Outline

/-- A field of a record in an outline. -/
def ofPart (p : Data.Part) : Except Failure (List Char × Outline) := do
  return part p.name (← ofData p.value)

theorem mapM_ofPart_required (name : String) (d : Data) (ps : List Data.Part) :
    ((⟨name, d, none⟩ :: ps).filter (·.isShown)).mapM ofPart = (do
      let o ← ofData d
      return part name o :: (← (ps.filter (·.isShown)).mapM ofPart)) := by
  rw [List.filter_cons_of_pos rfl, List.mapM_cons, ofPart]
  simp only [bind_assoc, pure_bind]

/-- What equals nothing, an empty text or an empty list has an outline. -/
theorem exists_ofData_of_equal {d e : Data} (he : e = .none ∨ e = .text "" ∨ e = .list [])
    (h : Data.equal e d = true) : ∃ o, ofData d = .ok o := by
  cases d with
  | list ds =>
    cases ds with
    | nil => exact ⟨_, rfl⟩
    | cons =>
      rcases he with rfl | rfl | rfl <;>
        simp [Data.equal, Data.alike, Data.alikeAll, Data.alikePlain, Data.asNumber?, Data.asText?,
          Data.asBytes?] at h
  | tuple | set | table | byteRange | label | diagnostic =>
    rcases he with rfl | rfl | rfl <;>
      simp [Data.equal, Data.alike, Data.alikePlain, Data.asNumber?, Data.asText?,
        Data.asBytes?] at h
  | _ => exact ⟨_, rfl⟩

/-- A field that is left out can be looked at first, for that does not fail. -/
theorem mapM_ofPart_optional (name : String) {d e : Data}
    (he : e = .none ∨ e = .text "" ∨ e = .list []) (ps : List Data.Part) :
    ((⟨name, d, some e⟩ :: ps).filter (·.isShown)).mapM ofPart = (do
      let o ← ofData d
      return (if Data.equal e d then [] else [part name o]) ++
        (← (ps.filter (·.isShown)).mapM ofPart)) := by
  rcases heq : Data.equal e d
  · have hshown : Data.Part.isShown ⟨name, d, some e⟩ = true := by simp [Data.Part.isShown, heq]
    rw [List.filter_cons_of_pos hshown, List.mapM_cons, ofPart]
    simp
  · have hleft : ¬ Data.Part.isShown ⟨name, d, some e⟩ = true := by simp [Data.Part.isShown, heq]
    obtain ⟨o, ho⟩ := exists_ofData_of_equal he heq
    rw [List.filter_cons_of_neg hleft, ho]
    simp only [if_true, List.nil_append, bind_pure]
    rfl

/-- **Records.** The outline of a record has those parts of it that differ from their defaults. -/
theorem ofData_of_parts {d : Data} {ps : List Data.Part} (h : d.parts = .ok ps) :
    ofData d = (do return record d.typeName (← (ps.filter (·.isShown)).mapM ofPart)) := by
  cases d with
  | byteRange start stop =>
    obtain rfl := Except.ok.inj h
    simp only [mapM_ofPart_required, ofData]
    simp [Data.typeName]
  | label how file range message =>
    cases range with
    | byteRange start stop =>
      obtain rfl := Except.ok.inj h
      simp only [mapM_ofPart_required, mapM_ofPart_optional _ (.inr (.inl rfl)), ofData, ofItems]
      simp [Data.typeName]
      rfl
    | _ => cases h
  | diagnostic level code message labels notes =>
    obtain rfl := Except.ok.inj h
    simp only [mapM_ofPart_required, mapM_ofPart_optional _ (.inl rfl),
      mapM_ofPart_optional _ (.inr (.inl rfl)), mapM_ofPart_optional _ (.inr (.inr rfl)), ofData]
    rcases heq : Data.equal (.list []) labels
    · simp [Data.typeName]
    · obtain ⟨o, ho⟩ := exists_ofData_of_equal (.inr (.inr rfl)) heq
      simp [Data.typeName, ho]
      rfl
  | _ => cases h

/-- The parts in the outlines of fields spell what the fields spell. -/
theorem exists_mapM_ofPart {ps : List Data.Part} {ts : List (List Char)}
    (h : List.Forall₂ Data.Part.Spells ps ts) :
    ∃ parts, ps.mapM ofPart = .ok parts ∧ List.Forall₂ PartSpells parts ts := by
  induction h with
  | nil => exact ⟨[], rfl, .nil⟩
  | @cons p t ps ts hp _ ih =>
    obtain ⟨hname, u, ⟨o, ho, hu⟩, rfl⟩ := hp
    obtain ⟨parts, hparts, hspells⟩ := ih
    refine ⟨part p.name o :: parts, ?_, .cons ⟨_, _, hname, hu, rfl⟩ hspells⟩
    rw [List.mapM_cons, ofPart, ho, hparts]
    rfl

/-- A record spells its name and what those of its parts spell that are shown. -/
theorem spells_of_parts {d : Data} {ps : List Data.Part} {name : String} {ts : List (List Char)}
    (h : d.parts = .ok ps) (htype : d.typeName = name)
    (hname : Bare (name.toList ++ ['(']) (name.toList ++ ['(']))
    (hps : List.Forall₂ Data.Part.Spells (ps.filter (·.isShown)) ts) :
    d.Spells (spelledRecord name ts) := by
  obtain ⟨parts, hparts, hspells⟩ := exists_mapM_ofPart hps
  refine ⟨record name parts, ?_, .branch hname (by decide) hspells⟩
  rw [ofData_of_parts h, hparts, htype]
  rfl

/-- A field spells its name in front of what it holds. -/
theorem part_spells {name : String} {d : Data} {default? : Option Data} {u : List Char}
    (hname : Bare (name.toList ++ ['=']) (name.toList ++ ['='])) (h : d.Spells u) :
    Data.Part.Spells ⟨name, d, default?⟩ (spelledField name u) :=
  ⟨hname, u, h, rfl⟩

/-- A field that is left out spells nothing. -/
theorem optional_spells {P : Prop} [Decidable P] {name : String} {d e : Data} {t : List Char}
    (hiff : Data.equal e d = true ↔ P) (h : Data.Part.Spells ⟨name, d, some e⟩ t) :
    List.Forall₂ Data.Part.Spells (([⟨name, d, some e⟩] : List Data.Part).filter (·.isShown))
      (if P then [] else [t]) := by
  by_cases hP : P
  · rw [if_pos hP, List.filter_cons_of_neg (by simpa [Data.Part.isShown] using hiff.2 hP)]
    exact .nil
  · rw [if_neg hP, List.filter_cons_of_pos (by simpa [Data.Part.isShown] using mt hiff.1 hP)]
    exact .cons h .nil

theorem equal_text_iff {s : String} : Data.equal (.text "") (.text s) = true ↔ s = "" := by
  have hequal : Data.equal (.text "") (.text s) = ("" == s) := by
    simp [Data.equal, Data.alike, Data.alikePlain, Data.asNumber?, Data.asText?]
  rw [hequal, beq_iff_eq, eq_comm]

/-- **Labels.** The outline of a label spells it. -/
theorem spells_label {c : LabelContent} (hnative : c.fileId.IsNative)
    (hshort : ¬ c.data.HasLong) : c.data.Spells c.spelled := by
  have hheld {d : Data} (hd : d ∈ c.data.held) : ¬ d.HasLong := fun hlong => hshort (.held hd hlong)
  have hrange {n : Nat} (hn : Data.int n ∈ c.range.data.held) : (Data.int n).Spells (Digits.text n) :=
    Data.spells_int fun hlong => hheld (by simp [LabelContent.data, Data.held]) (.held hn hlong)
  have hfile : c.fileId.Spells c.fileId.spelled :=
    Data.spells_native hnative (hheld (by simp [LabelContent.data, Data.held]))
  have hstart := hrange (n := c.range.start) (by simp [ByteRange.data, Data.held])
  have hstop := hrange (n := c.range.stop) (by simp [ByteRange.data, Data.held])
  have hparts : c.data.parts = .ok ([⟨"style", .style c.style, none⟩, ⟨"file_id", c.fileId, none⟩,
      ⟨"range", .tuple [.int c.range.start, .int c.range.stop], none⟩] ++
        [⟨"message", .text c.message, some (.text "")⟩]) := rfl
  refine spells_of_parts hparts rfl (by decide) ?_
  rw [List.filter_append, LabelContent.fields, List.map_append, apply_ite (List.map _)]
  refine List.rel_append (.cons ?_ (.cons ?_ (.cons ?_ .nil))) ?_
  · exact part_spells (by decide) (Data.spells_style c.style)
  · exact part_spells (by decide) hfile
  · exact part_spells (by decide) (Data.spells_tuple (.cons hstart (.cons hstop .nil)))
  · exact optional_spells equal_text_iff (part_spells (by decide) (Data.spells_text c.message))

theorem equal_list_iff {ds : List Data} :
    Data.equal (.list []) (.list ds) = true ↔ ds.isEmpty = true := by
  cases ds <;> simp [Data.equal, Data.alike, Data.alikeAll]

/-- A code spells its text, and nothing if there is none. -/
theorem code_spells (code : Option String) :
    List.Forall₂ Data.Part.Spells
      (([⟨"code", (code.map Data.text).getD .none, some .none⟩] : List Data.Part).filter (·.isShown))
      ((code.toList.map DiagnosticField.code).map DiagnosticField.spelled) := by
  cases code with
  | none =>
    have hleft : ¬ Data.Part.isShown ⟨"code", .none, some .none⟩ = true := by
      simp [Data.Part.isShown, Data.equal, Data.alike]
    rw [Option.map_none, Option.getD_none, List.filter_cons_of_neg hleft]
    exact .nil
  | some s =>
    have hshown : Data.Part.isShown ⟨"code", .text s, some .none⟩ = true := by
      simp [Data.Part.isShown, Data.equal, Data.alike, Data.alikePlain, Data.asNumber?,
        Data.asText?, Data.asBytes?]
    rw [Option.map_some, Option.getD_some, List.filter_cons_of_pos hshown]
    exact .cons (part_spells (by decide) (Data.spells_text s)) .nil

/-- **Diagnostics.** The outline of a diagnostic spells it. -/
theorem spells_diagnostic {c : DiagnosticContent} (hnative : c.IsNative)
    (hshort : ¬ c.data.HasLong) : c.data.Spells c.spelled := by
  have hlabel : ∀ l ∈ c.labels, l.data.Spells l.spelled := by
    refine fun l hl => spells_label (hnative l hl) fun hlong => hshort ?_
    have hlabels : (Data.list (c.labels.map LabelContent.data)).HasLong :=
      .held (List.mem_map_of_mem hl) hlong
    exact .held (by simp [DiagnosticContent.data, Data.held]) hlabels
  have hnotes := Data.spells_map fun s (_ : s ∈ c.notes) => Data.spells_text s
  have hempty {α : Type} {as : List α} {f : α → Data} :
      Data.equal (.list []) (.list (as.map f)) = true ↔ as.isEmpty = true := by
    rw [equal_list_iff, List.isEmpty_map]
  have hparts : c.data.parts = .ok ([⟨"severity", .severity c.severity, none⟩] ++
      [⟨"code", (c.code.map Data.text).getD .none, some .none⟩] ++
      [⟨"message", .text c.message, some (.text "")⟩] ++
      [⟨"labels", .list (c.labels.map LabelContent.data), some (.list [])⟩] ++
      [⟨"notes", .list (c.notes.map Data.text), some (.list [])⟩]) := rfl
  refine spells_of_parts hparts rfl (by decide) ?_
  simp only [DiagnosticContent.fields, List.map_append, List.filter_append,
    apply_ite (List.map DiagnosticField.spelled)]
  refine List.rel_append (List.rel_append (List.rel_append (List.rel_append ?_ ?_) ?_) ?_) ?_
  · exact .cons (part_spells (by decide) (Data.spells_severity c.severity)) .nil
  · exact code_spells c.code
  · exact optional_spells equal_text_iff (part_spells (by decide) (Data.spells_text c.message))
  · exact optional_spells hempty (part_spells (by decide) (Data.spells_map hlabel))
  · exact optional_spells hempty (part_spells (by decide) hnotes)

end Outline

end Diagnostics
