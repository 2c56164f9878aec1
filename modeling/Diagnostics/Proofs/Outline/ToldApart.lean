import Diagnostics.Proofs.Outline.Spelled

/-!
# Outlines tell diagnostics apart

Two spellings are compared from the front, whatever stands behind them: where the one with something
behind it is the same as the other one with something behind that, both spell the same, and what
stands behind them is the same as well (`ToldApart`). A quoted text and a collection end by
themselves, and an integer ends where no digit follows (`Json.Ends`). What comes first in a row
cannot be the bracket that ends the row, so that two rows are told apart if their members are
(`bareBranch_append_inj`).

The fields of a record are a row as well. A field that is left out is one that the row does not
have, and begins like no other one.
-/

namespace Diagnostics

open Outline Json

namespace Outline

/-! ## Rows -/

section Rows

variable {α : Type} {write : α → List Char} {as bs : List α} {opening r s : List Char}
  {closing : Char}

/-- Whether two members have the same spelling only if they are the same. -/
def ToldApart (write : α → List Char) (a b : α) : Prop :=
  ∀ ⦃r s : List Char⦄, Ends r → Ends s → write a ++ r = write b ++ s → a = b ∧ r = s

/-- Whether a character ends a row. -/
def IsClosing (c : Char) : Prop := c = ')' ∨ c = ']' ∨ c = '}'

instance : DecidablePred IsClosing := fun _ => inferInstanceAs (Decidable (_ ∨ _ ∨ _))

theorem IsClosing.ends (h : IsClosing closing) (r : List Char) : Ends (closing :: r) := by
  obtain rfl | rfl | rfl := h <;> exact ends_cons r (by decide)

theorem IsClosing.ne_comma (h : IsClosing closing) : closing ≠ ',' := by
  obtain rfl | rfl | rfl := h <;> decide

/-- What stands behind a member of a row goes on as no number. -/
theorem ends_tail (hclosing : IsClosing closing) (as : List α) (write : α → List Char)
    (r : List Char) : Ends (as.flatMap (fun a => ',' :: write a) ++ closing :: r) := by
  cases as with
  | nil => exact hclosing.ends r
  | cons a as => exact ends_cons _ (by decide)

theorem tail_append_inj (hclosing : IsClosing closing)
    (h : ∀ a ∈ as, ∀ b ∈ bs, ToldApart write a b)
    (heq : as.flatMap (fun a => ',' :: write a) ++ closing :: r =
      bs.flatMap (fun b => ',' :: write b) ++ closing :: s) : as = bs ∧ r = s := by
  have hcomma := hclosing.ne_comma
  induction as generalizing bs with
  | nil =>
    cases bs with
    | nil => exact ⟨rfl, List.tail_eq_of_cons_eq heq⟩
    | cons b bs => exact absurd (List.head_eq_of_cons_eq heq) hcomma
  | cons a as ih =>
    cases bs with
    | nil => exact absurd (List.head_eq_of_cons_eq heq).symm hcomma
    | cons b bs =>
      rw [List.flatMap_cons, List.flatMap_cons, List.append_assoc, List.append_assoc] at heq
      obtain ⟨rfl, hrest⟩ := h a List.mem_cons_self b List.mem_cons_self
        (ends_tail hclosing as write r) (ends_tail hclosing bs write s)
        (List.tail_eq_of_cons_eq heq)
      obtain ⟨rfl, rfl⟩ := ih (fun a ha b hb => h a (.tail _ ha) b (.tail _ hb)) hrest
      exact ⟨rfl, rfl⟩

/-- **Rows.** Two rows are told apart if their members are and begin like no end of a row. -/
theorem bareBranch_append_inj (hclosing : IsClosing closing)
    (hbegins : ∀ a r s, a ∈ as ∨ a ∈ bs → write a ++ r ≠ closing :: s)
    (h : ∀ a ∈ as, ∀ b ∈ bs, ToldApart write a b)
    (heq : bareBranch opening [closing] false (as.map write) ++ r =
      bareBranch opening [closing] false (bs.map write) ++ s) : as = bs ∧ r = s := by
  have hrows : Data.join [','] (as.map write) ++ closing :: r =
      Data.join [','] (bs.map write) ++ closing :: s := by
    simpa [bareBranch] using heq
  cases as with
  | nil =>
    cases bs with
    | nil => exact ⟨rfl, List.tail_eq_of_cons_eq hrows⟩
    | cons b bs =>
      rw [List.map_cons, join_cons, List.append_assoc] at hrows
      exact absurd hrows.symm (hbegins b _ _ (.inr List.mem_cons_self))
  | cons a as =>
    cases bs with
    | nil =>
      rw [List.map_cons, join_cons, List.append_assoc] at hrows
      exact absurd hrows (hbegins a _ _ (.inl List.mem_cons_self))
    | cons b bs =>
      rw [List.map_cons, List.map_cons, join_cons, join_cons, List.append_assoc, List.append_assoc,
        List.flatMap_map, List.flatMap_map] at hrows
      obtain ⟨rfl, hrest⟩ := h a List.mem_cons_self b List.mem_cons_self
        (ends_tail hclosing as write r) (ends_tail hclosing bs write s) hrows
      obtain ⟨rfl, rfl⟩ := tail_append_inj hclosing
        (fun a ha b hb => h a (.tail _ ha) b (.tail _ hb)) hrest
      exact ⟨rfl, rfl⟩

end Rows

/-! ## First characters -/

section Begins

variable {α κ : Type} {sortOf : Char → κ} {write : α → List Char} {a b : α} {j k : κ}
  {r s : List Char}

/-- Whether a spelling begins with a character of some sort. -/
def Begins (sortOf : Char → κ) (write : α → List Char) (a : α) (k : κ) : Prop :=
  ∃ c cs, write a = c :: cs ∧ sortOf c = k

/-- The same spelling begins with the same sort of character. -/
theorem Begins.sort_eq (ha : Begins sortOf write a j) (hb : Begins sortOf write b k)
    (h : write a ++ r = write b ++ s) : j = k := by
  obtain ⟨c, cs, hcs, rfl⟩ := ha
  obtain ⟨c', cs', hcs', rfl⟩ := hb
  rw [hcs, hcs'] at h
  exact congrArg sortOf (List.head_eq_of_cons_eq h)

theorem Begins.append_ne (ha : Begins sortOf write a k) {closing : Char}
    (hk : sortOf closing ≠ k) (r s : List Char) : write a ++ r ≠ closing :: s := by
  obtain ⟨c, cs, hcs, rfl⟩ := ha
  rw [hcs]
  exact fun h => hk (congrArg sortOf (List.head_eq_of_cons_eq h).symm)

end Begins

end Outline

/-! ## Native data -/

/-- Different integers have different digits, also in front of something that is no digit. -/
theorem Digits.text_append_inj {m n : Int} {r s : List Char} (hr : Ends r) (hs : Ends s)
    (h : text m ++ r = text n ++ s) : m = n ∧ r = s := by
  -- a reader that takes as many characters as the longer one has reads both of them back
  let limits : Limits := ⟨0, max (text m).length (text n).length⟩
  have hm : scalar .characters limits (text m ++ r) = .ok (.int m, r) :=
    scalar_integer (Nat.le_max_left _ _) hr
  have hn : scalar .characters limits (text n ++ s) = .ok (.int n, s) :=
    scalar_integer (Nat.le_max_right _ _) hs
  rw [h, hn] at hm
  obtain ⟨hint, hrest⟩ := Prod.mk.inj (Except.ok.inj hm)
  exact ⟨(Json.int.inj hint).symm, hrest.symm⟩

namespace Data

/-- The kinds of native data, and what is none. -/
inductive Kind where
  | none
  | bool
  | int
  | text
  | list
  | table
  | other
  deriving DecidableEq

/-- What kind of native data a spelling that begins with a character is of. -/
def Kind.ofInitial (c : Char) : Kind :=
  if c = '-' ∨ c.isDigit then .int
  else if c = Quoted.apostrophe ∨ c = Quoted.doubleQuote then .text
  else if c = 'N' then .none
  else if c = 'T' ∨ c = 'F' then .bool
  else if c = '[' then .list
  else if c = '{' then .table
  else .other

/-- The kind of native data. -/
def kind : Data → Kind
  | none => .none
  | bool _ => .bool
  | int _ => .int
  | text _ => .text
  | list _ => .list
  | table _ => .table
  | _ => .other

theorem begins_spelled {d : Data} (h : d.IsNative) : Begins Kind.ofInitial spelled d d.kind := by
  cases h with
  | none => exact ⟨'N', "one".toList, rfl, rfl⟩
  | bool b =>
    cases b
    · exact ⟨'F', "alse".toList, rfl, rfl⟩
    · exact ⟨'T', "rue".toList, rfl, rfl⟩
  | int n =>
    obtain ⟨c, cs, htext, hc⟩ := Digits.exists_text_eq_cons n
    exact ⟨c, cs, htext, if_pos hc⟩
  | text s =>
    refine ⟨_, _, rfl, ?_⟩
    obtain h | h := Quoted.isMark_delimiter s.toList <;> rw [h] <;> rfl
  | list => exact ⟨'[', _, rfl, rfl⟩
  | table => exact ⟨'{', _, rfl, rfl⟩

/-- No native data is spelled in a way that begins with a closing bracket. -/
theorem spelled_append_ne {d : Data} (hd : d.IsNative) {c : Char} (hc : IsClosing c)
    (r s : List Char) : d.spelled ++ r ≠ c :: s := by
  have hother : Kind.ofInitial c = .other := by obtain rfl | rfl | rfl := hc <;> decide
  refine (begins_spelled hd).append_ne ?_ r s
  rw [hother]
  cases hd <;> simp [kind]

theorem spelledEntry_append_ne (e : String × Data) (r s : List Char) :
    spelledEntry e ++ r ≠ '}' :: s := by
  rw [spelledEntry, List.append_assoc, List.append_assoc]
  exact spelled_append_ne (.text e.1) (by decide) _ s

theorem toldApart_spelledEntry {e f : String × Data} (h : ToldApart spelled e.2 f.2) :
    ToldApart spelledEntry e f := by
  intro r s hr hs heq
  rw [spelledEntry, spelledEntry] at heq
  simp only [List.append_assoc, List.singleton_append] at heq
  obtain ⟨hkey, hvalue⟩ := Quoted.text_append_inj heq
  obtain ⟨hdata, hrest⟩ := h hr hs (List.tail_eq_of_cons_eq hvalue)
  exact ⟨Prod.ext hkey hdata, hrest⟩

/-- **Native data.** Different native data is told apart. -/
theorem toldApart_spelled {d e : Data} (hd : d.IsNative) (he : e.IsNative) :
    ToldApart spelled d e := by
  -- data of different kinds begins with different characters, so `e` is of the kind of `d`
  induction hd generalizing e with
  | none =>
    intro r s _ _ heq
    have hkind := (begins_spelled .none).sort_eq (begins_spelled he) heq
    cases he <;> try cases hkind
    exact ⟨rfl, List.append_cancel_left heq⟩
  | bool b =>
    intro r s _ _ heq
    have hkind := (begins_spelled (.bool b)).sort_eq (begins_spelled he) heq
    cases he <;> try cases hkind
    next b' =>
    cases b <;> cases b'
    · exact ⟨rfl, List.append_cancel_left heq⟩
    · cases List.head_eq_of_cons_eq heq
    · cases List.head_eq_of_cons_eq heq
    · exact ⟨rfl, List.append_cancel_left heq⟩
  | int n =>
    intro r s hr hs heq
    have hkind := (begins_spelled (.int n)).sort_eq (begins_spelled he) heq
    cases he <;> try cases hkind
    obtain ⟨rfl, hrest⟩ := Digits.text_append_inj hr hs heq
    exact ⟨rfl, hrest⟩
  | text t =>
    intro r s _ _ heq
    have hkind := (begins_spelled (.text t)).sort_eq (begins_spelled he) heq
    cases he <;> try cases hkind
    obtain ⟨rfl, hrest⟩ := Quoted.text_append_inj heq
    exact ⟨rfl, hrest⟩
  | @list ds items ih =>
    intro r s _ _ heq
    have hkind := (begins_spelled (.list items)).sort_eq (begins_spelled he) heq
    cases he <;> try cases hkind
    next es items' =>
    rw [spelled, spelled, spelledItems_eq_map, spelledItems_eq_map] at heq
    have hbegins : ∀ d r s, d ∈ ds ∨ d ∈ es → spelled d ++ r ≠ ']' :: s := fun d r s hd =>
      spelled_append_ne (hd.elim (items d) (items' d)) (by decide) r s
    obtain ⟨rfl, hrest⟩ := bareBranch_append_inj (by decide) hbegins
      (fun d hd e he => ih d hd (items' e he)) heq
    exact ⟨rfl, hrest⟩
  | @table es values keys ih =>
    intro r s _ _ heq
    have hkind := (begins_spelled (.table values keys)).sort_eq (begins_spelled he) heq
    cases he <;> try cases hkind
    next es' values' keys' =>
    rw [spelled, spelled, spelledEntries_eq_map, spelledEntries_eq_map] at heq
    obtain ⟨rfl, hrest⟩ := bareBranch_append_inj (by decide)
      (fun e r s _ => spelledEntry_append_ne e r s)
      (fun e he f hf => toldApart_spelledEntry (ih e he (values' f hf))) heq
    exact ⟨rfl, hrest⟩

end Data

/-! ## Records -/

variable {r s : List Char}

theorem spelledField_append_inj {name : String} {t u : List Char}
    (h : spelledField name t ++ r = spelledField name u ++ s) : t ++ r = u ++ s := by
  rw [spelledField, spelledField, List.append_assoc _ t, List.append_assoc _ u] at h
  exact List.append_cancel_left h

/-- Members of an enumeration are told apart by the letters that their names begin with. -/
theorem spelledMember_append_inj {enumeration name name' word word' : String}
    (h : Data.spelledMember enumeration name word ++ r =
      Data.spelledMember enumeration name' word' ++ s) :
    name.toList ++ ':' :: (Quoted.text word ++ '>' :: r) =
      name'.toList ++ ':' :: (Quoted.text word' ++ '>' :: s) := by
  rw [Data.spelledMember, Data.spelledMember] at h
  simp only [List.append_assoc, List.cons_append, List.nil_append] at h
  exact List.tail_eq_of_cons_eq (List.append_cancel_left (List.tail_eq_of_cons_eq h))

theorem Severity.toldApart (a b : Severity) :
    ToldApart (fun s : Severity => Data.spelledMember "Severity" s.name s.word) a b := by
  intro r s _ _ h
  have hletter := congrArg List.head? (spelledMember_append_inj h)
  obtain rfl : a = b := by
    cases a <;> cases b <;> first | rfl | cases hletter
  exact ⟨rfl, List.append_cancel_left h⟩

theorem LabelStyle.toldApart (a b : LabelStyle) :
    ToldApart (fun s : LabelStyle => Data.spelledMember "LabelStyle" s.name s.word) a b := by
  intro r s _ _ h
  have hletter := congrArg List.head? (spelledMember_append_inj h)
  obtain rfl : a = b := by
    cases a <;> cases b <;> first | rfl | cases hletter
  exact ⟨rfl, List.append_cancel_left h⟩

theorem ByteRange.toldApart (a b : ByteRange) :
    ToldApart (fun r : ByteRange =>
      bareBranch ['('] [')'] false [Digits.text r.start, Digits.text r.stop]) a b := by
  intro r s _ _ h
  let bounds (r : ByteRange) : List Int := [r.start, r.stop]
  have hrows : bareBranch ['('] [')'] false ((bounds a).map Digits.text) ++ r =
      bareBranch ['('] [')'] false ((bounds b).map Digits.text) ++ s := h
  obtain ⟨hbounds, hrest⟩ := bareBranch_append_inj (by decide)
    (fun n r s _ => Data.spelled_append_ne (.int n) (by decide) r s)
    (fun m _ n _ r s hr hs => Digits.text_append_inj hr hs) hrows
  simp only [bounds, List.cons.injEq, Int.natCast_inj, and_true] at hbounds
  obtain ⟨hstart, hstop⟩ := hbounds
  cases a
  cases b
  subst hstart hstop
  exact ⟨rfl, hrest⟩

namespace LabelField

/-- Whether the file that a field holds is native. -/
def IsNative : LabelField → Prop
  | fileId d => d.IsNative
  | _ => True

/-- The letter that the spelling of a field begins with. -/
def initial : LabelField → Char
  | style _ => 's'
  | fileId _ => 'f'
  | range _ => 'r'
  | message _ => 'm'

theorem begins_spelled (f : LabelField) : Begins id spelled f f.initial := by
  cases f <;> exact ⟨_, _, rfl, rfl⟩

theorem spelled_append_ne (f : LabelField) : ∀ r s, f.spelled ++ r ≠ ')' :: s :=
  f.begins_spelled.append_ne (by cases f <;> rw [initial] <;> decide)

/-- Different fields are told apart. -/
theorem toldApart {f g : LabelField} (hf : f.IsNative) (hg : g.IsNative) :
    ToldApart spelled f g := by
  intro r s hr hs h
  -- fields of different names begin with different letters
  have hinitial := f.begins_spelled.sort_eq g.begins_spelled h
  cases f <;> cases g <;> try cases hinitial
  case style.style a b =>
    obtain ⟨rfl, hrest⟩ := LabelStyle.toldApart a b hr hs (spelledField_append_inj h)
    exact ⟨rfl, hrest⟩
  case fileId.fileId =>
    obtain ⟨rfl, hrest⟩ := Data.toldApart_spelled hf hg hr hs (spelledField_append_inj h)
    exact ⟨rfl, hrest⟩
  case range.range a b =>
    obtain ⟨rfl, hrest⟩ := ByteRange.toldApart a b hr hs (spelledField_append_inj h)
    exact ⟨rfl, hrest⟩
  case message.message =>
    obtain ⟨rfl, hrest⟩ := Quoted.text_append_inj (spelledField_append_inj h)
    exact ⟨rfl, hrest⟩

end LabelField

namespace LabelContent

variable {c c' : LabelContent}

theorem isNative_of_mem_fields (h : c.fileId.IsNative) : ∀ f ∈ c.fields, f.IsNative := by
  intro f hf
  cases f with
  | fileId d =>
    obtain rfl : d = c.fileId := by simpa [fields] using hf
    exact h
  | _ => trivial

/-- A label that holds what a field shows. -/
def put (c : LabelContent) : LabelField → LabelContent
  | .style s => { c with style := s }
  | .fileId d => { c with fileId := d }
  | .range r => { c with range := r }
  | .message s => { c with message := s }

/-- A label without a message is completed by the fields that another one shows. -/
theorem foldl_put_fields (c : LabelContent) :
    c.fields.foldl put ⟨.primary, .none, ⟨0, 0⟩, ""⟩ = c := by
  obtain ⟨style, fileId, range, message⟩ := c
  by_cases h : message = "" <;> simp [fields, put, h]

theorem fields_injective : Function.Injective fields := by
  intro c c' h
  rw [← foldl_put_fields c, h, foldl_put_fields]

/-- Different labels are told apart. -/
theorem toldApart (h : c.fileId.IsNative) (h' : c'.fileId.IsNative) : ToldApart spelled c c' := by
  intro r s _ _ heq
  obtain ⟨hfields, hrest⟩ := bareBranch_append_inj (by decide)
    (fun f r s _ => f.spelled_append_ne r s)
    (fun f hf g hg => LabelField.toldApart (isNative_of_mem_fields h f hf)
      (isNative_of_mem_fields h' g hg)) heq
  exact ⟨fields_injective hfields, hrest⟩

theorem spelled_append_ne (c : LabelContent) (r s : List Char) : c.spelled ++ r ≠ ']' :: s := by
  intro h
  cases List.head_eq_of_cons_eq h

end LabelContent

namespace DiagnosticField

/-- Whether the files that a field holds are native. -/
def IsNative : DiagnosticField → Prop
  | labels ls => ∀ l ∈ ls, l.fileId.IsNative
  | _ => True

/-- The letter that the spelling of a field begins with. -/
def initial : DiagnosticField → Char
  | severity _ => 's'
  | code _ => 'c'
  | message _ => 'm'
  | labels _ => 'l'
  | notes _ => 'n'

theorem begins_spelled (f : DiagnosticField) : Begins id spelled f f.initial := by
  cases f <;> exact ⟨_, _, rfl, rfl⟩

theorem spelled_append_ne (f : DiagnosticField) : ∀ r s, f.spelled ++ r ≠ ')' :: s :=
  f.begins_spelled.append_ne (by cases f <;> rw [initial] <;> decide)

/-- Different fields are told apart. -/
theorem toldApart {f g : DiagnosticField} (hf : f.IsNative) (hg : g.IsNative) :
    ToldApart spelled f g := by
  intro r s hr hs h
  have hinitial := f.begins_spelled.sort_eq g.begins_spelled h
  cases f <;> cases g <;> try cases hinitial
  case severity.severity a b =>
    obtain ⟨rfl, hrest⟩ := Severity.toldApart a b hr hs (spelledField_append_inj h)
    exact ⟨rfl, hrest⟩
  case code.code =>
    obtain ⟨rfl, hrest⟩ := Quoted.text_append_inj (spelledField_append_inj h)
    exact ⟨rfl, hrest⟩
  case message.message =>
    obtain ⟨rfl, hrest⟩ := Quoted.text_append_inj (spelledField_append_inj h)
    exact ⟨rfl, hrest⟩
  case labels.labels =>
    obtain ⟨rfl, hrest⟩ := bareBranch_append_inj (by decide)
      (fun c r s _ => c.spelled_append_ne r s)
      (fun c hc c' hc' => LabelContent.toldApart (hf c hc) (hg c' hc')) (spelledField_append_inj h)
    exact ⟨rfl, hrest⟩
  case notes.notes =>
    obtain ⟨rfl, hrest⟩ := bareBranch_append_inj (by decide)
      (fun t r s _ => Data.spelled_append_ne (.text t) (by decide) r s)
      (fun t _ u _ r s _ _ => Quoted.text_append_inj) (spelledField_append_inj h)
    exact ⟨rfl, hrest⟩

end DiagnosticField

namespace DiagnosticContent

variable {c c' : DiagnosticContent}

theorem isNative_of_mem_fields (h : c.IsNative) : ∀ f ∈ c.fields, f.IsNative := by
  intro f hf
  cases f with
  | labels ls =>
    obtain ⟨-, rfl⟩ : c.labels ≠ [] ∧ ls = c.labels := by simpa [fields] using hf
    exact h
  | _ => trivial

/-- A diagnostic that holds what a field shows. -/
def put (c : DiagnosticContent) : DiagnosticField → DiagnosticContent
  | .severity s => { c with severity := s }
  | .code s => { c with code := some s }
  | .message s => { c with message := s }
  | .labels ls => { c with labels := ls }
  | .notes ns => { c with notes := ns }

/-- A diagnostic that holds nothing is completed by the fields that another one shows. -/
theorem foldl_put_fields (c : DiagnosticContent) :
    c.fields.foldl put ⟨.help, none, "", [], []⟩ = c := by
  obtain ⟨severity, code, message, labels, notes⟩ := c
  by_cases h : message = "" <;> cases code <;> cases labels <;> cases notes <;>
    simp [fields, put, h]

theorem fields_injective : Function.Injective fields := by
  intro c c' h
  rw [← foldl_put_fields c, h, foldl_put_fields]

/-- Different diagnostics have different spellings. -/
theorem spelled_inj (h : c.IsNative) (h' : c'.IsNative) (heq : c.spelled = c'.spelled) :
    c = c' := by
  have hrows := congrArg (· ++ []) heq
  obtain ⟨hfields, -⟩ := bareBranch_append_inj (by decide)
    (fun f r s _ => f.spelled_append_ne r s)
    (fun f hf g hg => DiagnosticField.toldApart (isNative_of_mem_fields h f hf)
      (isNative_of_mem_fields h' g hg)) hrows
  exact fields_injective hfields

/-- **Outlines.** A diagnostic with native files and without a long integer has an outline, and no
other one looks the same, whatever its fields hold, however much is left out for being a default and
however the two outlines are laid out. -/
theorem outline_injective (h : c.IsNative) (h' : c'.IsNative) (hshort : ¬ c.data.HasLong)
    (hshort' : ¬ c'.data.HasLong) (s s' : Settings) :
    ∃ t t', c.data.outline s = .ok t ∧ c'.data.outline s' = .ok t' ∧ (t = t' → c = c') := by
  obtain ⟨o, ho, hspells⟩ := spells_diagnostic h hshort
  obtain ⟨o', ho', hspells'⟩ := spells_diagnostic h' hshort'
  refine ⟨o.render s, o'.render s', congrArg (Except.map (render s)) ho,
    congrArg (Except.map (render s')) ho', fun heq => ?_⟩
  have hbare := hspells.render s
  rw [heq] at hbare
  exact spelled_inj h h' (hbare.unique (hspells'.render s'))

/-- A message that looks like the end of a message with a note behind it. -/
theorem outline_injective_notes :
    let label : LabelContent := ⟨.primary, .list [.int 7, .none], ⟨0, 1⟩, ""⟩
    let c : DiagnosticContent := ⟨.note, none, "x", [label], ["y"]⟩
    let c' : DiagnosticContent := ⟨.note, none, "x', notes=['y", [label], []⟩
    let s : Settings := ⟨40, false, List.length⟩
    let s' : Settings := ⟨80, false, List.length⟩
    ∃ t t', c.data.outline s = .ok t ∧ c'.data.outline s' = .ok t' ∧ t ≠ t' := by
  intro label c c' s s'
  have hnative (message : String) (notes : List String) :
      IsNative ⟨.note, none, message, [label], notes⟩ := by
    intro l hl
    obtain rfl := List.mem_singleton.1 hl
    exact .list (List.forall_mem_cons.2 ⟨.int 7, List.forall_mem_singleton.2 .none⟩)
  have hshort (message : String) (notes : List String) :
      ¬ (data ⟨.note, none, message, [label], notes⟩).HasLong := by
    have hdigits : Digits.count 7 ≤ digitLimit ∧ Digits.count 0 ≤ digitLimit ∧
        Digits.count 1 ≤ digitLimit := by
      decide
    simpa [data, LabelContent.data, ByteRange.data, Data.hasLong_iff, Data.hasLong_int, Data.held,
      label] using hdigits
  obtain ⟨t, t', ht, ht', hinj⟩ : ∃ t t', c.data.outline s = .ok t ∧
      c'.data.outline s' = .ok t' ∧ (t = t' → c = c') :=
    outline_injective (hnative _ _) (hnative _ _) (hshort _ _) (hshort _ _) s s'
  refine ⟨t, t', ht, ht', fun heq => ?_⟩
  exact absurd (congrArg message (hinj heq)) (by decide)

end DiagnosticContent

end Diagnostics
